/-
# Interpolated heredocs

The body of an interpolated heredoc consists of texts with expansions between them. The
host reads the expansions itself, and a scanner is asked for the texts. What it meets there
is described here: where it looks for the delimiter only a part of that comes next, and
which part this is decides where the scan goes on.
-/

import ContextLexer.Proofs.Shell.Heredoc.Plain

namespace ContextLexer.Shell

/-! ## Bodies -/

/-- An expansion as it is written: a name, or anything in braces or parentheses. -/
inductive IsExpansion : List Char → Prop
  | name {letters : List Char} (nonempty : letters ≠ [])
      (alphabetic : ∀ c ∈ letters, c.isAlpha = true) : IsExpansion ('$' :: letters)
  | braced (inside : List Char) : IsExpansion ('$' :: '{' :: (inside ++ ['}']))
  | command (inside : List Char) : IsExpansion ('$' :: '(' :: (inside ++ [')']))

/-- A text without expansions and escapes. -/
def IsText (text : List Char) : Prop := ∀ c ∈ text, c ≠ '$' ∧ c ≠ '\\' ∧ c ≠ '\x00'

/-- An expansion and the text behind it. -/
structure Part where
  /-- The expansion, which the host reads. -/
  expansion : List Char
  /-- The text up to the next expansion or to the line feed in front of the delimiter. -/
  text : List Char
  expands : IsExpansion expansion
  plain : IsText text

/-- Expansions with the texts behind them. -/
def partsText (parts : List Part) : List Char :=
  parts.flatMap fun part => part.expansion ++ part.text

/-- What comes behind each line feed of a text. -/
def behindFeeds : List Char → List (List Char)
  | [] => []
  | c :: text => if c = '\n' then text :: behindFeeds text else behindFeeds text

/-- A text up to its first line feed. -/
def firstLine (text : List Char) : List Char := text.takeWhile (· ≠ '\n')

/-- Whether a line can begin with a text and leave a heredoc open: the delimiter does not
come next, and neither does whitespace, unless the line is empty. -/
def LeavesOpen (delimiter line : List Char) : Prop :=
  ¬ delimiter <+: line ∧ ∀ c ∈ line.head?, isSpace c = true → c = '\n'

instance (delimiter line : List Char) : Decidable (LeavesOpen delimiter line) :=
  @instDecidableAnd _ _ _ (Option.decidableForallMem line.head?)

/-- A heredoc as it is written, with expansions in its body. -/
structure InterpolatedHeredoc where
  /-- The word that closes the heredoc. -/
  delimiter : List Char
  /-- The text in front of the first expansion. -/
  leading : List Char
  /-- The expansions, each with the text behind it. -/
  parts : List Part
  nonempty : delimiter ≠ []
  solid : ∀ c ∈ delimiter, isSpace c = false ∧ c ≠ '\x00' ∧ c ≠ '\\' ∧ isQuote c = false
  begins : ∀ c ∈ delimiter.head?, c ∉ ['-', '<', '=', '$']
  interpolated : parts ≠ []
  plain : IsText leading
  lines : ∀ line ∈ behindFeeds ('\n' :: (leading ++ partsText parts)),
    LeavesOpen delimiter line
  unlike : ∀ part ∈ parts, ¬ delimiter <+: part.text
  distinct : ∀ part ∈ parts, firstLine part.text ≠ [] → firstLine part.text <+: delimiter →
    firstLine part.text = delimiter

namespace InterpolatedHeredoc

/-- The heredoc with its body left out. -/
def bare (h : InterpolatedHeredoc) : PlainHeredoc :=
  .empty h.delimiter h.nonempty h.solid h.begins

end InterpolatedHeredoc

/-! ## Small facts -/

@[simp] theorem partsText_nil : partsText [] = [] := rfl

@[simp] theorem partsText_cons (part : Part) (parts : List Part) :
    partsText (part :: parts) = part.expansion ++ (part.text ++ partsText parts) := by
  simp [partsText]

theorem mem_behindFeeds {line text : List Char} :
    line ∈ behindFeeds text ↔ ∃ front, text = front ++ '\n' :: line := by
  induction text with
  | nil => simp [behindFeeds]
  | cons c text ih =>
      rw [behindFeeds]
      split
      case isTrue hc =>
        subst hc
        rw [List.mem_cons, ih]
        constructor
        · rintro (rfl | ⟨front, rfl⟩)
          · exact ⟨[], rfl⟩
          · exact ⟨'\n' :: front, rfl⟩
        · rintro ⟨front, hfront⟩
          cases front with
          | nil => exact .inl (List.cons.inj hfront).2.symm
          | cons x front => exact .inr ⟨front, (List.cons.inj hfront).2⟩
      case isFalse hc =>
        rw [ih]
        constructor
        · rintro ⟨front, rfl⟩
          exact ⟨c :: front, rfl⟩
        · rintro ⟨front, hfront⟩
          cases front with
          | nil => exact absurd (List.cons.inj hfront).1 hc
          | cons x front => exact ⟨front, (List.cons.inj hfront).2⟩

/-- What comes behind a line feed of a part of a text comes so behind one of the text. -/
theorem behindFeeds_append (before after : List Char) {text line : List Char}
    (h : line ∈ behindFeeds text) :
    line ++ after ∈ behindFeeds (before ++ (text ++ after)) := by
  obtain ⟨front, rfl⟩ := mem_behindFeeds.mp h
  exact mem_behindFeeds.mpr ⟨before ++ front, by simp⟩

theorem behindFeeds_suffix (front : List Char) {text line : List Char}
    (hline : line ∈ behindFeeds text) : line ∈ behindFeeds (front ++ text) := by
  simpa using behindFeeds_append front [] hline

/-- A text without a certain character comes next in front of that character if it comes
next at all. -/
theorem prefix_of_not_mem {part line rest : List Char} {y : Char} (hy : y ∉ part)
    (h : part <+: line ++ y :: rest) : part <+: line := by
  obtain ⟨tail, htail⟩ := h
  rcases List.append_eq_append_iff.mp htail with ⟨more, hline, -⟩ | ⟨more, hpart, hmore⟩
  · exact ⟨more, hline.symm⟩
  · cases more with
    | nil => exact ⟨[], by simpa using hpart⟩
    | cons x more =>
        obtain ⟨rfl, -⟩ := List.cons.inj hmore
        exact absurd (by simp [hpart]) hy

theorem IsExpansion.exists_cons {expansion : List Char} (h : IsExpansion expansion) :
    ∃ x inside, expansion = '$' :: x :: inside ∧ beginsExpansionInBody x = true := by
  cases h with
  | @name letters nonempty alphabetic =>
      obtain ⟨x, inside, rfl⟩ := List.exists_cons_of_ne_nil nonempty
      exact ⟨x, inside, rfl, by simp [beginsExpansionInBody, alphabetic x]⟩
  | braced inside => exact ⟨'{', _, rfl, by decide⟩
  | command inside => exact ⟨'(', _, rfl, by decide⟩

/-- No line begins behind an expansion. -/
theorem IsExpansion.exists_last {expansion : List Char} (h : IsExpansion expansion) :
    ∃ inside x, expansion = inside ++ [x] ∧ x ≠ '\n' := by
  cases h with
  | @name letters nonempty alphabetic =>
      obtain ⟨inside, x, rfl⟩ := (List.eq_nil_or_concat letters).resolve_left nonempty
      refine ⟨'$' :: inside, x, by simp, ?_⟩
      rintro rfl
      exact absurd (alphabetic '\n' (by simp)) (by decide)
  | braced inside => exact ⟨'$' :: '{' :: inside, '}', rfl, by decide⟩
  | command inside => exact ⟨'$' :: '(' :: inside, ')', rfl, by decide⟩

/-! ## Meeting a part of the delimiter -/

/-- Where a word does not come next, the part of it that does is met. What comes next then
is not the rest of the word, nor can it be if the line or the text ends there. -/
theorem meetDelimiter_of_not_next {word text : List Char} (unlike : ¬ word <+: text) :
    ∃ met left, text = met ++ left ∧ met <+: word ∧ '\n' ∉ met ∧
      (∀ c ∈ left.head?, c = '\x00' ∨ c = '\n' ∨ ¬ met ++ [c] <+: word) ∧
      ∀ before start mark, meetDelimiter word ⟨.between before text, start, mark⟩ =
        (false, ⟨.between (before ++ met) left, start, mark⟩) := by
  induction word generalizing text with
  | nil => exact absurd List.nil_prefix unlike
  | cons x word ih =>
      cases text with
      | nil =>
          refine ⟨[], [], rfl, List.nil_prefix, by simp, by simp, ?_⟩
          intro before start mark
          simp [meetDelimiter]
      | cons y text =>
          by_cases hstop : y = '\x00' ∨ y = '\n' ∨ y ≠ x
          · refine ⟨[], y :: text, rfl, List.nil_prefix, by simp, ?_, ?_⟩
            · rintro c ⟨⟩
              refine hstop.imp id (Or.imp id fun hne hprefix => hne ?_)
              exact (List.cons_prefix_cons.mp hprefix).1
            · intro before start mark
              simp [meetDelimiter, hstop]
          · obtain ⟨hnul, hfeed, rfl⟩ : y ≠ '\x00' ∧ y ≠ '\n' ∧ y = x := by simpa using hstop
            have htext : ¬ word <+: text := fun h =>
              unlike (List.cons_prefix_cons.mpr ⟨rfl, h⟩)
            obtain ⟨met, left, rfl, hword, hlines, hstops, hmeet⟩ := ih htext
            refine ⟨y :: met, left, rfl, List.cons_prefix_cons.mpr ⟨rfl, hword⟩, ?_, ?_, ?_⟩
            · rw [List.mem_cons, not_or]
              exact ⟨hfeed.symm, hlines⟩
            · intro c hc
              refine (hstops c hc).imp id (Or.imp id fun hne hprefix => hne ?_)
              exact (List.cons_prefix_cons.mp hprefix).2
            · intro before start mark
              have hmeet := hmeet (before ++ [y]) start mark
              simpa [meetDelimiter, hnul, hfeed] using hmeet

end ContextLexer.Shell
