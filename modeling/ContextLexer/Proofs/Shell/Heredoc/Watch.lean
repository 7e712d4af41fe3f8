/-
# Watching for expansions

Text that is returned should hold no expansion. A dollar sign in it must be escaped, which
it is behind an odd number of backslashes, or what follows must begin no expansion. A scan
that goes through a text one character or one escape at a time can see to this, except
where it passes characters without looking at them. Which places these are is left open
here: a text is watched up to them.
-/

import ContextLexer.Proofs.Passage
import ContextLexer.Shell.Heredoc.Body

namespace ContextLexer

/-- The text before a place. -/
def Place.before (p : Place) : List Char := p.passed.reverse

@[simp] theorem Place.before_between (before after : List Char) :
    (between before after).before = before := by
  simp [Place.before, between]

theorem Place.between_before (p : Place) : between p.before p.ahead = p := by
  simp [Place.before, between]

namespace Shell

/-! ## Escapes -/

/-- The number of backslashes at the end of a text. -/
def slashes (text : List Char) : Nat := (text.reverse.takeWhile (· = '\\')).length

@[simp] theorem slashes_nil : slashes [] = 0 := rfl

@[simp] theorem slashes_slash (text : List Char) : slashes (text ++ ['\\']) = slashes text + 1 := by
  simp [slashes]

theorem slashes_other {x : Char} (hx : x ≠ '\\') (text : List Char) :
    slashes (text ++ [x]) = 0 := by
  simp [slashes, hx]

/-- Whether the next character behind a text is not escaped. -/
def Unescaped (text : List Char) : Prop := slashes text % 2 = 0

theorem unescaped_nil : Unescaped [] := rfl

theorem unescaped_other {x : Char} (hx : x ≠ '\\') (text : List Char) :
    Unescaped (text ++ [x]) := by
  rw [Unescaped, slashes_other hx]

/-- A backslash that is not escaped escapes what follows. -/
theorem Unescaped.not_slash {text : List Char} (h : Unescaped text) :
    ¬ Unescaped (text ++ ['\\']) := by
  rw [Unescaped] at h ⊢
  rw [slashes_slash]
  omega

theorem Unescaped.pair {text : List Char} (h : Unescaped text) (x : Char) :
    Unescaped (text ++ ['\\'] ++ [x]) := by
  by_cases hx : x = '\\'
  · subst hx
    rw [Unescaped] at h ⊢
    rw [slashes_slash, slashes_slash]
    omega
  · exact unescaped_other hx _

/-! ## Watched texts -/

variable {blind : List Char → Prop} {before region ahead : List Char} {x : Char}

/-- Whether an expansion begins with a dollar sign in front of a text. -/
def Expands (after : List Char) : Prop := beginsExpansionInBody (after.headD '\x00') = true

/-- A region between two texts holds no expansion, except at blind spots. -/
def Clean (blind : List Char → Prop) (before region ahead : List Char) : Prop :=
  ∀ front back, region = front ++ '$' :: back → Unescaped front → Expands (back ++ ahead) →
    blind (before ++ front)

theorem Clean.nil : Clean blind before [] ahead := by
  intro front back h
  simp at h

theorem Clean.snoc (clean : Clean blind before region (x :: ahead))
    (dollar : x = '$' → Unescaped region → Expands ahead → blind (before ++ region)) :
    Clean blind before (region ++ [x]) ahead := by
  intro front back hregion hfront hback
  obtain rfl | ⟨initial, last, rfl⟩ := List.eq_nil_or_concat back
  · obtain ⟨rfl, hx⟩ : region = front ∧ x = '$' := by
      simpa using List.append_inj' hregion rfl
    exact dollar hx hfront hback
  · have hsplit : region ++ [x] = (front ++ '$' :: initial) ++ [last] := by simpa using hregion
    obtain ⟨rfl, hx⟩ : region = front ++ '$' :: initial ∧ x = last := by
      simpa using List.append_inj' hsplit rfl
    subst hx
    exact clean front initial rfl hfront (by simpa using hback)

theorem Clean.of_append {shown rest : List Char}
    (clean : Clean blind before (shown ++ rest) ahead) :
    Clean blind before shown (rest ++ ahead) := by
  intro front back hshown hfront hback
  exact clean front (back ++ rest) (by simp [hshown]) hfront (by simpa using hback)

/-- A region is clean, and a scan that goes on behind it knows which character is escaped. -/
structure Careful (blind : List Char → Prop) (before region ahead : List Char) : Prop where
  clean : Clean blind before region ahead
  paired : ahead = [] ∨ Unescaped region ∨ blind (before ++ region)

namespace Careful

theorem nil : Careful blind before [] ahead := ⟨.nil, .inr (.inl unescaped_nil)⟩

/-- A character that is neither a dollar sign nor a backslash. -/
theorem text (h : Careful blind before region (x :: ahead)) (hdollar : x ≠ '$')
    (hslash : x ≠ '\\') : Careful blind before (region ++ [x]) ahead :=
  ⟨h.clean.snoc fun hx => absurd hx hdollar, .inr (.inl (unescaped_other hslash region))⟩

theorem texts {run : List Char} (h : Careful blind before region (run ++ ahead))
    (plain : ∀ x ∈ run, x ≠ '$' ∧ x ≠ '\\') : Careful blind before (region ++ run) ahead := by
  induction run generalizing region with
  | nil => simpa using h
  | cons x run ih =>
      obtain ⟨⟨hdollar, hslash⟩, hrun⟩ := List.forall_mem_cons.mp plain
      have ih := ih (h.text hdollar hslash) hrun
      simpa using ih

/-- A dollar sign that begins no expansion. -/
theorem dollar (h : Careful blind before region ('$' :: ahead)) (hexpands : ¬ Expands ahead) :
    Careful blind before (region ++ ['$']) ahead :=
  ⟨h.clean.snoc fun _ _ hback => absurd hback hexpands,
    .inr (.inl (unescaped_other (by decide) region))⟩

/-- Any character at a blind spot, if the place behind a backslash there is one as well. -/
theorem step (h : Careful blind before region (x :: ahead)) (here : blind (before ++ region))
    (spot : ∀ text, blind text → blind (text ++ ['\\'])) :
    Careful blind before (region ++ [x]) ahead := by
  refine ⟨h.clean.snoc fun _ _ _ => here, .inr ?_⟩
  by_cases hx : x = '\\'
  · subst hx
    exact .inr (by simpa using spot _ here)
  · exact .inl (unescaped_other hx region)

/-- A backslash and the character after it. -/
theorem pair (h : Careful blind before region ('\\' :: x :: ahead))
    (spot : ∀ text, blind text → blind (text ++ ['\\'])) :
    Careful blind before (region ++ ['\\'] ++ [x]) ahead := by
  have hslash : Clean blind before (region ++ ['\\']) (x :: ahead) :=
    h.clean.snoc fun hx => absurd hx (by decide)
  -- An escape keeps the parity, so only behind a blind spot can it take an expansion along.
  rcases h.paired with hnil | heven | hblind
  · cases hnil
  · refine ⟨hslash.snoc fun _ hodd => absurd hodd heven.not_slash, .inr (.inl (heven.pair x))⟩
  · have hspot : blind (before ++ (region ++ ['\\'])) := by simpa using spot _ hblind
    exact (Careful.step h hblind spot).step hspot spot

/-- A backslash at the end of the text. -/
theorem last (h : Careful blind before region ['\\']) :
    Careful blind before (region ++ ['\\']) [] :=
  ⟨h.clean.snoc fun hx => absurd hx (by decide), .inl rfl⟩

end Careful

/-! ## Watching cursors -/

/-- A cursor has moved over a region, and its token begins with the region. -/
structure Spans (before region ahead : List Char) (c : Cursor) : Prop where
  place : c.place = .between (before ++ region) ahead
  start : c.start = .between before (region ++ ahead)
  mark : ∀ m ∈ c.mark, ∃ shown rest, region = shown ++ rest ∧
    m = .between (before ++ shown) (rest ++ ahead)

namespace Spans

variable {c : Cursor}

theorem consume (h : Spans before region (x :: ahead) c) :
    Spans before (region ++ [x]) ahead c.consume where
  place := by
    rw [Cursor.consume, h.place]
    simp
  start := by
    rw [Cursor.consume, h.start]
    simp
  mark := by
    intro m hm
    obtain ⟨shown, rest, rfl, rfl⟩ := h.mark m hm
    exact ⟨shown, rest ++ [x], by simp, by simp⟩

theorem consume_nil (h : Spans before region [] c) : c.consume = c := by
  have hplace : c.place.next = c.place := by
    rw [h.place]
    rfl
  rw [Cursor.consume, hplace]

theorem markEnd (h : Spans before region ahead c) : Spans before region ahead c.markEnd where
  place := h.place
  start := h.start
  mark := by
    rintro _ ⟨⟩
    exact ⟨region, [], by simp, by simpa using h.place⟩

theorem skip {run : List Char} {test : Char → Bool} (h : Spans before region (run ++ ahead) c)
    (passes : ∀ x ∈ run, test x = true) (stops : ∀ x ∈ ahead.head?, test x = false) :
    Spans before (region ++ run) ahead (c.consumeWhile test) where
  place := by
    rw [Cursor.consumeWhile, h.place, Place.skipWhile_between passes stops]
    simp
  start := by
    rw [Cursor.consumeWhile, h.start]
    simp
  mark := by
    intro m hm
    obtain ⟨shown, rest, rfl, rfl⟩ := h.mark m hm
    exact ⟨shown, rest ++ run, by simp, by simp⟩

/-- A token that is moved along begins anew. -/
theorem of_place {before ahead : List Char} {c : Cursor} (place : c.place = .between before ahead)
    (start : c.start = c.place) (unmarked : c.mark = none) : Spans before [] ahead c where
  place := by simpa using place
  start := by simpa using start.trans place
  mark := by simp [unmarked]

end Spans

/-- A cursor stands behind a text, and what its token has come to hold of it is watched. -/
def Passed (blind : List Char → Prop) (whole ahead : List Char) (c : Cursor) : Prop :=
  ∃ before region, whole = before ++ region ∧ Spans before region ahead c ∧
    Careful blind before region ahead

/-- The token of a cursor holds no expansion, except at blind spots. -/
def Shows (blind : List Char → Prop) (c : Cursor) : Prop :=
  ∃ before shown ahead, c.start = .between before (shown ++ ahead) ∧
    c.stop = .between (before ++ shown) ahead ∧ Clean blind before shown ahead

/-- The token of such a cursor, with what lies before and behind it. -/
theorem Shows.token {κ : Type} {c : Cursor} (h : Shows blind c) (kind : κ) :
    Clean blind (c.token kind).start.before (c.token kind).text (c.token kind).stop.ahead := by
  obtain ⟨before, shown, ahead, hstart, hstop, hclean⟩ := h
  have htoken : (c.token kind).start = c.start := by
    refine if_neg ?_
    rw [hstart, hstop, Place.index_between, Place.index_between, List.length_append]
    omega
  rw [Token.text, htoken]
  change Clean blind c.start.before (c.start.since c.stop) c.stop.ahead
  rw [hstart, hstop, Place.since_between, Place.before_between, Place.ahead_between]
  exact hclean

namespace Passed

variable {whole : List Char} {c : Cursor}

theorem place_eq (h : Passed blind whole ahead c) : c.place = .between whole ahead := by
  obtain ⟨before, region, rfl, hspans, -⟩ := h
  exact hspans.place

theorem lookahead_eq (h : Passed blind whole ahead c) : c.lookahead = ahead.headD '\x00' := by
  rw [Cursor.lookahead, h.place_eq]
  rfl

theorem exists_cons (h : Passed blind whole ahead c) (hnul : c.lookahead ≠ '\x00') :
    ∃ rest, ahead = c.lookahead :: rest := by
  rw [h.lookahead_eq] at hnul ⊢
  cases ahead with
  | nil => exact absurd rfl hnul
  | cons x ahead => exact ⟨ahead, rfl⟩

/-- A token that is moved along holds nothing yet. -/
theorem anew (place : c.place = .between whole ahead) (start : c.start = c.place)
    (unmarked : c.mark = none) : Passed blind whole ahead c :=
  ⟨whole, [], by simp, .of_place place start unmarked, .nil⟩

theorem shows (h : Passed blind whole ahead c) : Shows blind c := by
  obtain ⟨before, region, rfl, hspans, hcareful⟩ := h
  cases hmark : c.mark with
  | none =>
      refine ⟨before, region, ahead, hspans.start, ?_, hcareful.clean⟩
      rw [Cursor.stop, hmark]
      exact hspans.place
  | some m =>
      obtain ⟨shown, rest, rfl, rfl⟩ := hspans.mark m hmark
      refine ⟨before, shown, rest ++ ahead, by simpa using hspans.start, ?_,
        hcareful.clean.of_append⟩
      rw [Cursor.stop, hmark]
      rfl

theorem begin (p : Place) : Passed blind p.before p.ahead (.begin p) :=
  .anew p.between_before.symm rfl rfl

theorem markEnd (h : Passed blind whole ahead c) : Passed blind whole ahead c.markEnd := by
  obtain ⟨before, region, rfl, hspans, hcareful⟩ := h
  exact ⟨before, region, rfl, hspans.markEnd, hcareful⟩

theorem text (h : Passed blind whole (x :: ahead) c) (hdollar : x ≠ '$') (hslash : x ≠ '\\') :
    Passed blind (whole ++ [x]) ahead c.consume := by
  obtain ⟨before, region, rfl, hspans, hcareful⟩ := h
  exact ⟨before, region ++ [x], by simp, hspans.consume, hcareful.text hdollar hslash⟩

theorem dollar (h : Passed blind whole ('$' :: ahead) c) (hexpands : ¬ Expands ahead) :
    Passed blind (whole ++ ['$']) ahead c.consume := by
  obtain ⟨before, region, rfl, hspans, hcareful⟩ := h
  exact ⟨before, region ++ ['$'], by simp, hspans.consume, hcareful.dollar hexpands⟩

theorem step (h : Passed blind whole (x :: ahead) c) (here : blind whole)
    (spot : ∀ text, blind text → blind (text ++ ['\\'])) :
    Passed blind (whole ++ [x]) ahead c.consume := by
  obtain ⟨before, region, rfl, hspans, hcareful⟩ := h
  exact ⟨before, region ++ [x], by simp, hspans.consume, hcareful.step here spot⟩

/-- The character at a blind spot is passed over, if there is one. -/
theorem pass (h : Passed blind whole ahead c) (here : blind whole)
    (spot : ∀ text, blind text → blind (text ++ ['\\'])) :
    ∃ whole ahead, Passed blind whole ahead c.consume := by
  cases ahead with
  | nil =>
      have hsame := h
      obtain ⟨before, region, rfl, hspans, -⟩ := h
      rw [hspans.consume_nil]
      exact ⟨_, [], hsame⟩
  | cons x ahead => exact ⟨_, ahead, h.step here spot⟩

/-- A backslash takes the next character along, if there is one. -/
theorem escape (h : Passed blind whole ('\\' :: ahead) c)
    (spot : ∀ text, blind text → blind (text ++ ['\\'])) :
    ∃ whole ahead, Passed blind whole ahead c.consume.consume := by
  obtain ⟨before, region, rfl, hspans, hcareful⟩ := h
  cases ahead with
  | nil =>
      rw [hspans.consume.consume_nil]
      exact ⟨_, [], before, region ++ ['\\'], rfl, hspans.consume, hcareful.last⟩
  | cons x ahead =>
      exact ⟨_, ahead, before, region ++ ['\\'] ++ [x], rfl, hspans.consume.consume,
        hcareful.pair spot⟩

/-- Whitespace is passed over. -/
theorem spaces (h : Passed blind whole ahead c) :
    ∃ blank rest, ahead = blank ++ rest ∧ (∀ x ∈ blank, isSpace x = true) ∧
      Passed blind (whole ++ blank) rest (c.consumeWhile isSpace) := by
  obtain ⟨before, region, rfl, hspans, hcareful⟩ := h
  obtain ⟨blank, rest, rfl, hblank, hrest⟩ := exists_run isSpace ahead
  refine ⟨blank, rest, rfl, hblank, before, region ++ blank, by simp,
    hspans.skip hblank hrest, hcareful.texts fun x hx => ?_⟩
  have hspace : isSpace x = true := hblank x hx
  constructor
  · rintro rfl
    exact absurd hspace (by decide)
  · rintro rfl
    exact absurd hspace (by decide)

/-- Whitespace is left out of the token. -/
theorem ignoreSpaces (h : Passed blind whole ahead c) (unmarked : c.mark = none) :
    ∃ blank rest, ahead = blank ++ rest ∧ (∀ x ∈ blank, isSpace x = true) ∧
      Passed blind (whole ++ blank) rest (c.ignoreWhile isSpace) := by
  rw [Cursor.ignoreWhile]
  split
  · obtain ⟨blank, rest, hahead, hblank, hpassed⟩ := h.spaces
    exact ⟨blank, rest, hahead, hblank, .anew hpassed.place_eq rfl unmarked⟩
  · exact ⟨[], ahead, rfl, by simp, by simpa using h⟩

theorem ignore (h : Passed blind whole (x :: ahead) c) (unmarked : c.mark = none) :
    Passed blind (whole ++ [x]) ahead c.ignore := by
  have hplace := h.place_eq
  have hnext : c.place.next = .between (whole ++ [x]) ahead := by
    rw [hplace, Place.next_between_cons]
  have hend : ¬ c.atEnd = true := by
    rw [Cursor.atEnd, hplace]
    simp
  rw [Cursor.ignore, if_neg hend]
  exact .anew hnext rfl unmarked

/-- A part of the delimiter is passed over without looking at its characters. -/
theorem meet {word : List Char} (h : Passed blind whole ahead c)
    (spots : ∀ met, met <+: word → blind (whole ++ met))
    (spot : ∀ text, blind text → blind (text ++ ['\\'])) :
    ∃ met rest, ahead = met ++ rest ∧ met <+: word ∧
      Passed blind (whole ++ met) rest (meetDelimiter word c).2 := by
  induction word generalizing whole ahead c with
  | nil => exact ⟨[], ahead, rfl, List.nil_prefix, by simpa [meetDelimiter] using h⟩
  | cons x word ih =>
      rw [meetDelimiter]
      split
      · exact ⟨[], ahead, rfl, List.nil_prefix, by simpa using h⟩
      · next hnext =>
        obtain ⟨hnul, -, hx⟩ : c.lookahead ≠ '\x00' ∧ c.lookahead ≠ '\n' ∧ c.lookahead = x := by
          simpa using hnext
        obtain ⟨rest, rfl⟩ := h.exists_cons hnul
        rw [hx] at h
        have hhere : blind whole := by simpa using spots [] List.nil_prefix
        have hspots (met : List Char) (hmet : met <+: word) : blind (whole ++ [x] ++ met) := by
          simpa using spots (x :: met) (by simpa using hmet)
        obtain ⟨met, rest, rfl, hmet, hpassed⟩ := ih (h.step hhere spot) hspots
        exact ⟨x :: met, rest, by simp [hx], by simpa using hmet, by simpa using hpassed⟩

end Passed

theorem mark_meetDelimiter (word : List Char) (c : Cursor) :
    (meetDelimiter word c).2.mark = c.mark := by
  induction word generalizing c with
  | nil => rfl
  | cons x word ih =>
      rw [meetDelimiter]
      split
      · rfl
      · exact ih c.consume

end Shell

end ContextLexer
