/-
# Passing over a known text

A scan is understood by the text that lies in front of its cursor. Here places and
cursors are written by the two parts of the text that they separate, both in reading
order, and every move says which characters it carries from the second part over to the
first. Nothing here depends on a particular scanner.
-/

import ContextLexer.Token

namespace ContextLexer

/-! ## Runs of characters -/

/-- Every text is a run of characters that satisfy a test, and a rest that does not begin
with one. -/
theorem exists_run (test : Char → Bool) (text : List Char) :
    ∃ run rest, text = run ++ rest ∧ (∀ c ∈ run, test c = true) ∧
      ∀ c ∈ rest.head?, test c = false := by
  induction text with
  | nil => exact ⟨[], [], rfl, by simp, by simp⟩
  | cons x text ih =>
      by_cases hx : test x = true
      · obtain ⟨run, rest, rfl, hrun, hrest⟩ := ih
        exact ⟨x :: run, rest, rfl, List.forall_mem_cons.mpr ⟨hx, hrun⟩, hrest⟩
      · exact ⟨[], x :: text, rfl, by simp, by simpa using hx⟩

theorem takeWhile_run {test : Char → Bool} {run rest : List Char}
    (passes : ∀ c ∈ run, test c = true) (stops : ∀ c ∈ rest.head?, test c = false) :
    (run ++ rest).takeWhile test = run := by
  have hrest : rest.takeWhile test = [] := by
    cases rest with
    | nil => rfl
    | cons x rest => exact List.takeWhile_cons_of_neg (by simpa using stops x)
  rw [List.takeWhile_append_of_pos passes, hrest, List.append_nil]

theorem dropWhile_run {test : Char → Bool} {run rest : List Char}
    (passes : ∀ c ∈ run, test c = true) (stops : ∀ c ∈ rest.head?, test c = false) :
    (run ++ rest).dropWhile test = rest := by
  rw [List.dropWhile_append_of_pos passes]
  cases rest with
  | nil => rfl
  | cons x rest => exact List.dropWhile_cons_of_neg (by simpa using stops x)

/-- A run is over where a character cannot go on with it. -/
theorem stops_cons {test : Char → Bool} {rest : List Char} {x : Char} (h : test x = false) :
    ∀ c ∈ (x :: rest).head?, test c = false := by
  rintro _ ⟨⟩
  exact h

/-- A run is over where neither the characters of another run nor the one behind them can go
on with it. -/
theorem stops_append_cons {test : Char → Bool} {run rest : List Char} {x : Char}
    (others : ∀ c ∈ run, test c = false) (last : test x = false) :
    ∀ c ∈ (run ++ x :: rest).head?, test c = false := by
  cases run with
  | nil => exact stops_cons last
  | cons y run => exact stops_cons (others y List.mem_cons_self)

/-! ## Places -/

namespace Place

/-- The place between two parts of a text. -/
def between (before after : List Char) : Place := ⟨before.reverse, after⟩

theorem first_eq_between (text : List Char) : first text = between [] text := rfl

@[simp] theorem ahead_between (before after : List Char) :
    (between before after).ahead = after := rfl

@[simp] theorem lookahead_between_cons (before after : List Char) (x : Char) :
    (between before (x :: after)).lookahead = x := rfl

@[simp] theorem lookahead_between_nil (before : List Char) :
    (between before []).lookahead = '\x00' := rfl

/-- What holds of the first character of a text, and of NUL, holds of the next character in
front of the text. -/
theorem lookahead_between {before text : List Char} (holds : Char → Prop) (nul : holds '\x00')
    (first : ∀ c ∈ text.head?, holds c) : holds (between before text).lookahead := by
  cases text with
  | nil => exact nul
  | cons x text => exact first x rfl

/-- A next character other than NUL begins the text ahead. -/
theorem lookahead_eq_iff {p : Place} {x : Char} (hx : x ≠ '\x00') :
    p.lookahead = x ↔ p.ahead.head? = some x := by
  obtain ⟨passed, ahead⟩ := p
  cases ahead with
  | nil => simp [lookahead, Ne.symm hx]
  | cons y ahead => simp [lookahead]

theorem exists_cons_of_lookahead {before text : List Char} {x : Char} (hx : x ≠ '\x00')
    (h : (between before text).lookahead = x) : ∃ rest, text = x :: rest :=
  List.head?_eq_some_iff.mp ((lookahead_eq_iff hx).mp h)

@[simp] theorem atEnd_between_cons (before after : List Char) (x : Char) :
    (between before (x :: after)).atEnd = false := rfl

@[simp] theorem atEnd_between_nil (before : List Char) :
    (between before []).atEnd = true := rfl

@[simp] theorem next_between_cons (before after : List Char) (x : Char) :
    (between before (x :: after)).next = between (before ++ [x]) after := by
  simp [between, next]

theorem skipWhile_eq_self {test : Char → Bool} {p : Place} :
    p.skipWhile test = p ↔ (test p.lookahead && !p.atEnd) = false := by
  obtain ⟨passed, ahead⟩ := p
  cases ahead with
  | nil => simp [skipWhile, splitWhile, atEnd]
  | cons x ahead =>
      by_cases hx : test x = true
      · have hless := remaining_skipWhile_le test ⟨x :: passed, ahead⟩
        have hne : splitWhile test (x :: passed) ahead ≠ ⟨passed, x :: ahead⟩ := by
          intro heq
          simp only [remaining, skipWhile, heq, List.length_cons] at hless
          omega
        simpa [skipWhile, splitWhile, hx, lookahead, atEnd] using hne
      · simp [skipWhile, splitWhile, hx, lookahead]

/-- A run of characters that satisfy a test is skipped if the character behind it does
not. -/
theorem skipWhile_between {test : Char → Bool} {before text after : List Char}
    (passes : ∀ x ∈ text, test x = true) (stops : ∀ x ∈ after.head?, test x = false) :
    (between before (text ++ after)).skipWhile test = between (before ++ text) after := by
  induction text generalizing before with
  | nil =>
      cases after with
      | nil => simp [between, skipWhile, splitWhile]
      | cons x after =>
          have hx : test x = false := stops x (by simp)
          simp [between, skipWhile, splitWhile, hx]
  | cons x text ih =>
      have hx : test x = true := passes x (by simp)
      have ih := @ih (before ++ [x]) fun y hy => passes y (by simp [hy])
      simpa [between, skipWhile, splitWhile, hx] using ih

/-- Taking as many characters as a text has leads behind the text. -/
theorem skip_between (before text after : List Char) :
    (between before (text ++ after)).skip text.length = between (before ++ text) after := by
  induction text generalizing before with
  | nil => simp [skip]
  | cons x text ih =>
      rw [List.length_cons, skip, List.cons_append, next_between_cons, ih]
      simp

/-- What lies between two places of a text. -/
theorem since_between (before text after rest : List Char) :
    (between before rest).since (between (before ++ text) after) = text := by
  simp [between, since, index]

theorem index_between (before after : List Char) :
    (between before after).index = before.length := by
  simp [between, index]

/-- A place is at the beginning of a line exactly at the beginning of the text and after
a line feed. -/
theorem atLineStart_between (before after : List Char) :
    (between before after).atLineStart = true ↔ before = [] ∨ before.getLast? = some '\n' := by
  obtain rfl | ⟨initial, last, rfl⟩ := List.eq_nil_or_concat before
  · simp [between, atLineStart]
  · simp [between, atLineStart]

end Place

/-! ## Cursors -/

namespace Cursor

/-- A cursor at the beginning of a call ignores by moving its token along. -/
theorem ignoreWhile_begin (test : Char → Bool) (p : Place) :
    (begin p).ignoreWhile test = begin (p.skipWhile test) := by
  obtain ⟨passed, ahead⟩ := p
  cases ahead with
  | nil => simp [ignoreWhile, begin, atEnd, Place.atEnd, Place.skipWhile, Place.splitWhile]
  | cons x ahead =>
      by_cases hx : test x = true
      · simp [ignoreWhile, begin, lookahead, Place.lookahead, atEnd, Place.atEnd, hx]
      · simp [ignoreWhile, begin, lookahead, Place.lookahead, hx, Place.skipWhile,
          Place.splitWhile]

/-- At the end of the text the next character reads as NUL. -/
theorem lookahead_of_atEnd {c : Cursor} (h : c.atEnd = true) : c.lookahead = '\x00' := by
  rw [lookahead, Place.lookahead, List.isEmpty_iff.mp h, List.headD_nil]

/-- A cursor that has not moved delimits an empty token. -/
theorem token_begin {κ : Type} (p : Place) (kind : κ) :
    (begin p).token kind = ⟨kind, p, p⟩ := by
  simp [token, tokenStart, stop, begin]

variable {before text after : List Char} {start : Place} {mark : Option Place}

@[simp] theorem lookahead_mk (p start : Place) (mark : Option Place) :
    (Cursor.mk p start mark).lookahead = p.lookahead := rfl

@[simp] theorem atEnd_mk (p start : Place) (mark : Option Place) :
    (Cursor.mk p start mark).atEnd = p.atEnd := rfl

@[simp] theorem sees_mk (p start : Place) (mark : Option Place) (x : Char) :
    (Cursor.mk p start mark).sees x = decide (p.lookahead = x) := rfl

@[simp] theorem consume_mk (p start : Place) (mark : Option Place) :
    (Cursor.mk p start mark).consume = ⟨p.next, start, mark⟩ := rfl

@[simp] theorem markEnd_mk (p start : Place) (mark : Option Place) :
    (Cursor.mk p start mark).markEnd = ⟨p, start, some p⟩ := rfl

theorem consumeWhile_between {test : Char → Bool} (passes : ∀ x ∈ text, test x = true)
    (stops : ∀ x ∈ after.head?, test x = false) :
    (Cursor.mk (.between before (text ++ after)) start mark).consumeWhile test =
      ⟨.between (before ++ text) after, start, mark⟩ := by
  rw [consumeWhile, Place.skipWhile_between passes stops]

/-- A run that is ignored moves the start of the token behind it. -/
theorem ignoreWhile_between {test : Char → Bool} (passes : ∀ x ∈ text, test x = true)
    (stops : ∀ x ∈ after.head?, test x = false) :
    (Cursor.mk (.between before (text ++ after)) start mark).ignoreWhile test =
      ⟨.between (before ++ text) after,
        if text = [] then start else .between (before ++ text) after, mark⟩ := by
  cases text with
  | nil =>
      cases after with
      | nil => simp [ignoreWhile]
      | cons x after =>
          have hx : test x = false := stops x rfl
          simp [ignoreWhile, hx]
  | cons x text =>
      have hx : test x = true := passes x (by simp)
      have hskip := @Place.skipWhile_between test before _ after passes stops
      rw [List.cons_append] at hskip
      simp [ignoreWhile, hx, hskip]

/-- A word that comes next is consumed in full. -/
theorem consumeWord_between :
    consumeWord text ⟨.between before (text ++ after), start, mark⟩ =
      (true, ⟨.between (before ++ text) after, start, mark⟩) := by
  induction text generalizing before with
  | nil => simp [consumeWord]
  | cons x text ih =>
      have ih := @ih (before ++ [x])
      simpa [consumeWord] using ih

/-- As many characters of a class as are asked for are consumed. -/
theorem consumeCount_between {test : Char → Bool} (passes : ∀ x ∈ text, test x = true) :
    consumeCount test text.length ⟨.between before (text ++ after), start, mark⟩ =
      (true, ⟨.between (before ++ text) after, start, mark⟩) := by
  induction text generalizing before with
  | nil => simp [consumeCount]
  | cons x text ih =>
      have hx : test x = true := passes x (by simp)
      have ih := @ih (before ++ [x]) fun y hy => passes y (by simp [hy])
      simpa [consumeCount, hx] using ih

/-- Two characters that are seen one after the other come next. -/
theorem pair_prefix {c : Cursor} {x y : Char} (hx : c.lookahead = x)
    (hy : c.consume.lookahead = y) (somex : x ≠ '\x00') (somey : y ≠ '\x00') :
    [x, y] <+: c.place.ahead := by
  obtain ⟨⟨passed, ahead⟩, start, mark⟩ := c
  cases ahead with
  | nil => exact absurd hx.symm somex
  | cons first ahead =>
      obtain rfl : first = x := hx
      cases ahead with
      | nil => exact absurd hy.symm somey
      | cons second rest =>
          obtain rfl : second = y := hy
          exact ⟨rest, rfl⟩

/-! ## Moving on

Whatever a move does, what is ahead of the cursor afterwards was ahead of it before.
-/

theorem ahead_consume_suffix (c : Cursor) : c.consume.place.ahead <:+ c.place.ahead := by
  obtain ⟨⟨passed, ahead⟩, start, mark⟩ := c
  cases ahead with
  | nil => exact List.suffix_rfl
  | cons x ahead => exact List.suffix_cons x ahead

theorem ahead_ignore_suffix (c : Cursor) : c.ignore.place.ahead <:+ c.place.ahead := by
  rw [ignore]
  split
  · exact List.suffix_rfl
  · exact c.ahead_consume_suffix

theorem ahead_consumeWhile_suffix (test : Char → Bool) (c : Cursor) :
    (c.consumeWhile test).place.ahead <:+ c.place.ahead := by
  rw [consumeWhile, Place.ahead_skipWhile]
  exact List.dropWhile_suffix test

theorem ahead_ignoreWhile_suffix (test : Char → Bool) (c : Cursor) :
    (c.ignoreWhile test).place.ahead <:+ c.place.ahead := by
  rw [ignoreWhile]
  split
  · exact c.ahead_consumeWhile_suffix test
  · exact List.suffix_rfl

end Cursor

end ContextLexer
