/-
# Documents and their layout

A document is a sequence of words, each on a line of its own, with a margin in front of
the first and a break after every one. Its layout is read off the widths of the lines
and a stack of open widths alone: a line closes every open width that is greater than
its own, opens its own width if none as great is open, and otherwise continues the block
that it belongs to. Nothing here mentions the scanner, its queue or the dedents it owes.
-/

import ContextLexer.Offside.Scanner
import ContextLexer.Proofs.Plays

namespace ContextLexer.Offside

open Host (Event)

/-! ## Documents -/

/-- Characters other than whitespace, at least one of them. -/
structure Word where
  /-- The characters of the word. -/
  text : List Char
  nonempty : text ≠ []
  solid : ∀ c ∈ text, isSpace c = false

/-- The spaces and tabs in front of the first word. -/
structure Margin where
  /-- The characters of the margin. -/
  text : List Char
  blank : ∀ c ∈ text, isBlank c = true

/-- Spaces, tabs and line breaks after a word, with a line feed among them. -/
structure Break where
  /-- The characters of the break. -/
  text : List Char
  filler : ∀ c ∈ text, isFiller c = true
  breaks : '\n' ∈ text

/-- Words with a margin in front of the first and a break after every one. -/
structure Document where
  /-- What stands in front of the first word. -/
  margin : Margin
  /-- The first word. -/
  first : Word
  /-- The other words, each with the break in front of it. -/
  later : List (Break × Word)
  /-- What stands after the last word. -/
  final : Break

/-- A document of three lines, the last of which lies between the other two in width. -/
instance : Inhabited Document where
  default :=
    { margin := { text := [' '], blank := List.forall_mem_singleton.mpr rfl }
      first := { text := ['a'], nonempty := by simp, solid := List.forall_mem_singleton.mpr rfl }
      later :=
        [({ text := ['\r', '\n', ' ', ' ', ' '], filler := by simp [isFiller], breaks := by simp },
          { text := ['b'], nonempty := by simp, solid := List.forall_mem_singleton.mpr rfl }),
         ({ text := ['\n', '\n', '\t', ' '], filler := by simp [isFiller], breaks := by simp },
          { text := ['c'], nonempty := by simp, solid := List.forall_mem_singleton.mpr rfl })]
      final := { text := ['\n'], filler := by simp [isFiller], breaks := by simp } }

/-- The text of words with breaks in front of them. -/
def linesText (lines : List (Break × Word)) : List Char :=
  lines.flatMap fun line => line.1.text ++ line.2.text

/-- The text of a document. -/
def Document.text (d : Document) : List Char :=
  d.margin.text ++ d.first.text ++ (linesText d.later ++ d.final.text)

/-! ## Layout -/

/-- The width of the line that follows a margin or a break: the number of characters
after its last line feed, up to the largest number of two bytes. -/
def width (gap : List Char) : Nat := min 65535 (gap.reverse.takeWhile (· ≠ '\n')).length

/-- The number of open widths that a line closes. -/
def closed (width : Nat) (stack : List Nat) : Nat := stack.countP (width < ·)

/-- The open widths that a line does not close. -/
def kept (width : Nat) (stack : List Nat) : List Nat := stack.filter (· ≤ width)

/-- Whether a line opens a block of its own. -/
def opens (width : Nat) (stack : List Nat) : Prop := (kept width stack).headD 0 < width

instance (width : Nat) (stack : List Nat) : Decidable (opens width stack) :=
  inferInstanceAs (Decidable (_ < _))

/-- The open widths from a line on, innermost first. -/
def align (width : Nat) (stack : List Nat) : List Nat :=
  if opens width stack then width :: kept width stack else kept width stack

/-- The layout tokens in front of a line, which is known to follow a line feed or not. -/
def announced (follows : Bool) (width : Nat) (stack : List Nat) : List Kind :=
  (List.replicate (closed width stack) [.dedent, .newline]).flatten ++
    if opens width stack then [.indent]
    else if closed width stack = 0 ∧ follows then [.newline]
    else []

/-- A line between two open widths closes the inner block and opens one of its own. -/
example : announced true 1 [2, 0] = [.dedent, .newline, .indent] ∧ align 1 [2, 0] = [1, 0] := by
  decide

/-- Tokens as a host sees them. -/
def shown (kinds : List Kind) : List (Event Kind) := kinds.map .token

/-- The stream of lines that follow line feeds. The end of the text counts as a line of
width zero. -/
def linesStream : List Nat → List (Break × Word) → List (Event Kind)
  | stack, [] => shown (announced true 0 stack)
  | stack, (gap, word) :: lines =>
    shown (announced true (width gap.text) stack) ++
      .taken word.text :: linesStream (align (width gap.text) stack) lines

/-- The stream of a document, in which only the outermost width is open at first. -/
def Document.stream (d : Document) : List (Event Kind) :=
  shown (announced false (width d.margin.text) [0]) ++
    .taken d.first.text :: linesStream (align (width d.margin.text) [0]) d.later

/-! ## Widths that are open at a time -/

/-- The open widths of a scanner whose outermost block has width zero. -/
def openWidths (blocks : List UInt16) : List Nat := blocks.map UInt16.toNat ++ [0]

/-- Every block is wider than the one around it. -/
def Nested (blocks : List UInt16) : Prop := (openWidths blocks).Pairwise (· > ·)

@[simp] theorem openWidths_nil : openWidths [] = [0] := rfl

@[simp] theorem openWidths_cons (b : UInt16) (blocks : List UInt16) :
    openWidths (b :: blocks) = b.toNat :: openWidths blocks := rfl

@[simp] theorem nested_nil : Nested [] := List.pairwise_singleton _ _

theorem nested_cons {b : UInt16} {blocks : List UInt16} :
    Nested (b :: blocks) ↔ (∀ w ∈ openWidths blocks, w < b.toNat) ∧ Nested blocks := by
  rw [Nested, openWidths_cons, List.pairwise_cons]
  rfl

theorem headD_openWidths (blocks : List UInt16) :
    (openWidths blocks).headD 0 = (blocks.headD 0).toNat := by
  cases blocks <;> rfl

/-- A line keeps the outer blocks up to the first one that is not wider than itself. -/
theorem kept_openWidths {blocks : List UInt16} (h : Nested blocks) (w : UInt16) :
    kept w.toNat (openWidths blocks) = openWidths (blocks.dropWhile (w < ·)) := by
  induction blocks with
  | nil => simp [kept]
  | cons b blocks ih =>
      obtain ⟨hless, hnested⟩ := nested_cons.mp h
      by_cases hb : w < b
      · have hb' : ¬ b.toNat ≤ w.toNat := Nat.not_le.mpr hb
        simpa [kept, hb, hb'] using ih hnested
      · have hb' : b.toNat ≤ w.toNat := Nat.not_lt.mp hb
        have hall : ∀ v ∈ openWidths (b :: blocks), v ≤ w.toNat := by
          intro v hv
          rcases List.mem_cons.mp hv with rfl | hv
          · exact hb'
          · exact Nat.le_trans (Nat.le_of_lt (hless v hv)) hb'
        rw [List.dropWhile_cons_of_neg (by simpa using hb), kept,
          List.filter_eq_self.mpr (by simpa using hall)]

/-- Every open width is either closed by a line or kept. -/
theorem closed_add_length_kept (width : Nat) (stack : List Nat) :
    closed width stack + (kept width stack).length = stack.length := by
  induction stack with
  | nil => rfl
  | cons v stack ih =>
      rw [closed, kept] at ih ⊢
      by_cases hv : width < v
      · simp [hv, Nat.not_le.mpr hv]
        omega
      · simp [hv, Nat.not_lt.mp hv]
        omega

/-- A line closes the blocks that it does not keep. -/
theorem closed_openWidths {blocks : List UInt16} (h : Nested blocks) (w : UInt16) :
    closed w.toNat (openWidths blocks) =
      blocks.length - (blocks.dropWhile (w < ·)).length := by
  have hsum := closed_add_length_kept w.toNat (openWidths blocks)
  have hlength (bs : List UInt16) : (openWidths bs).length = bs.length + 1 := by
    simp [openWidths]
  rw [kept_openWidths h, hlength, hlength] at hsum
  omega

/-- Blocks stay nested when inner ones are closed. -/
theorem Nested.dropWhile {blocks : List UInt16} (h : Nested blocks) (test : UInt16 → Bool) :
    Nested (blocks.dropWhile test) := by
  refine List.Pairwise.sublist ?_ h
  exact ((List.dropWhile_sublist test).map _).append (List.Sublist.refl _)

/-- Blocks stay nested when one is opened that is wider than the innermost. -/
theorem Nested.cons {blocks : List UInt16} {w : UInt16} (h : Nested blocks)
    (hw : blocks.headD 0 < w) : Nested (w :: blocks) := by
  refine nested_cons.mpr ⟨?_, h⟩
  have hw : (blocks.headD 0).toNat < w.toNat := hw
  intro v hv
  cases blocks with
  | nil => simpa using (List.mem_singleton.mp hv) ▸ hw
  | cons b blocks =>
      rcases List.mem_cons.mp hv with rfl | hv
      · exact hw
      · exact Nat.lt_trans ((nested_cons.mp h).1 v hv) hw

end ContextLexer.Offside
