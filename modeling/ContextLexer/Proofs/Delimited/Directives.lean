/-
# Line directives are recognised exactly

The scanner reads a directive from its hash sign on without ever going back. It need not: no
blank is a digit and neither of them is a double quote, so a text can be a directive in one way
only. What is returned is therefore just what the shape of a directive says, and the token goes
on to the end of the line, whatever stands behind the name of the file.
-/

import ContextLexer.Delimited.Scanner
import ContextLexer.Proofs.Onward

namespace ContextLexer.Delimited

/-- The host accepts line directives, and nothing else. -/
def lineDirectives : Acceptance Kind := .ofList [.lineDirective]

/-- A line directive up to the name of the file: a hash sign, a line number and the name in
double quotes, with spaces and tabs before and behind the number. -/
inductive IsDirective : List Char → Prop
  | intro {gap number space name : List Char} (gap_blank : ∀ c ∈ gap, isBlank c = true)
      (nonempty : number ≠ []) (numeric : ∀ c ∈ number, c.isDigit = true)
      (space_blank : ∀ c ∈ space, isBlank c = true)
      (name_inside : ∀ c ∈ name, isLineEnd c = false ∧ c ≠ '\"') :
      IsDirective ('#' :: (gap ++ (number ++ (space ++ '\"' :: (name ++ ['\"'])))))

variable {p q : Place} {c after : Cursor} {head : List Char} {x : Char}

/-! ## Kinds of characters -/

theorem eq_of_isBlank (h : isBlank x = true) : x = ' ' ∨ x = '\t' := by
  simpa [isBlank] using h

theorem isDigit_of_isBlank (h : isBlank x = true) : x.isDigit = false := by
  rcases eq_of_isBlank h with rfl | rfl <;> decide

theorem isBlank_of_isDigit (h : x.isDigit = true) : isBlank x = false :=
  Bool.eq_false_iff.mpr fun hblank =>
    Bool.false_ne_true ((isDigit_of_isBlank hblank).symm.trans h)

theorem isLineEnd_of_isBlank (h : isBlank x = true) : isLineEnd x = false := by
  rcases eq_of_isBlank h with rfl | rfl <;> decide

theorem isLineEnd_of_isDigit (h : x.isDigit = true) : isLineEnd x = false := by
  have hfeed : x ≠ '\n' := ne_of_test (by decide) h
  have hreturn : x ≠ '\r' := ne_of_test (by decide) h
  simp [isLineEnd, hfeed, hreturn]

/-- A directive stands on one line. -/
theorem IsDirective.isLineEnd (h : IsDirective head) : ∀ x ∈ head, isLineEnd x = false := by
  cases h with
  | @intro gap number space name gap_blank nonempty numeric space_blank name_inside =>
      have hhash : Delimited.isLineEnd '#' = false := by decide
      have hquote : Delimited.isLineEnd '\"' = false := by decide
      simp only [List.forall_mem_cons, List.forall_mem_append, List.not_mem_nil, hhash, hquote]
      exact ⟨trivial, fun x hx => isLineEnd_of_isBlank (gap_blank x hx),
        fun x hx => isLineEnd_of_isDigit (numeric x hx),
        fun x hx => isLineEnd_of_isBlank (space_blank x hx), trivial,
        fun x hx => (name_inside x hx).1, trivial, nofun⟩

/-! ## The reader -/

/-- A directive is read, and so is all behind it up to the end of the line. -/
theorem lineDirective?_of_isDirective (h : IsDirective head) (leads : p.Leads head q) :
    lineDirective? (.begin p) = some ⟨q.skipWhile (!isLineEnd ·), p, none⟩ := by
  obtain ⟨before, rest, hp, rfl⟩ := leads
  cases h with
  | @intro gap number space name gap_blank nonempty numeric space_blank name_inside =>
      obtain ⟨digit, digits, hnumber⟩ := List.exists_cons_of_ne_nil nonempty
      have hdigit : digit.isDigit = true := numeric digit (by simp [hnumber])
      have begins (before behind : List Char) :
          (Place.between before (number ++ behind)).lookahead.isDigit = true := by
        rw [hnumber]
        exact hdigit
      have gap_stops (behind : List Char) : ∀ x ∈ (number ++ behind).head?, isBlank x = false := by
        rw [hnumber]
        exact stops_cons (isBlank_of_isDigit hdigit)
      have number_stops (behind : List Char) : ∀ x ∈ (space ++ '\"' :: behind).head?,
          x.isDigit = false :=
        stops_append_cons (fun x hx => isDigit_of_isBlank (space_blank x hx)) (by decide)
      have space_stops (behind : List Char) : ∀ x ∈ ('\"' :: behind).head?, isBlank x = false :=
        stops_cons (by decide)
      have name_passes : ∀ x ∈ name, (!isLineEnd x && decide (x ≠ '\"')) = true := by
        simpa using name_inside
      have name_stops (behind : List Char) : ∀ x ∈ ('\"' :: behind).head?,
          (!isLineEnd x && decide (x ≠ '\"')) = false :=
        stops_cons (by decide)
      simp only [List.cons_append, List.append_assoc, List.nil_append] at hp
      simp only [hp, lineDirective?, Cursor.begin, Cursor.consume_mk, Place.next_between_cons,
        Cursor.consumeWhile_between gap_blank (gap_stops _), Cursor.lookahead_mk, begins,
        Cursor.consumeWhile_between numeric (number_stops _),
        Cursor.consumeWhile_between space_blank (space_stops _), Cursor.sees_mk,
        Place.lookahead_between_cons, Cursor.consumeWhile_between name_passes (name_stops _),
        decide_true, Bool.not_true, Bool.false_eq_true, if_false]
      simp [Cursor.consumeWhile]

/-- A character that passes a test begins a run. -/
theorem takeWhile_ne_nil {test : Char → Bool} (h : test c.lookahead = true)
    (nul : test '\x00' = false) : c.place.ahead.takeWhile test ≠ [] := by
  obtain ⟨⟨passed, ahead⟩, start, mark⟩ := c
  cases ahead with
  | nil => exact absurd (nul.symm.trans h) Bool.false_ne_true
  | cons x ahead =>
      have hx : test x = true := h
      simp [hx]

/-- What has been read is a directive. -/
theorem exists_isDirective (hash : c.sees '#' = true) (h : lineDirective? c = some after) :
    ∃ head, IsDirective head ∧ head <+: c.place.ahead := by
  simp only [lineDirective?, Option.ite_none_left_eq_some, Option.some.injEq,
    Bool.not_eq_true', Bool.not_eq_false] at h
  obtain ⟨hdigit, hopening, hclosing, -⟩ := h
  have passes {test : Char → Bool} {text : List Char} : ∀ x ∈ text.takeWhile test, test x = true :=
    List.all_eq_true.mp List.all_takeWhile
  -- Every reader has consumed what it was looking for, so the texts make up what is ahead.
  have hhash := Cursor.Consumes.of_sees hash (Cursor.atEnd_of_sees hash (by decide))
  have hgap := Cursor.Consumes.consumeWhile isBlank c.consume
  have hnumber := Cursor.Consumes.consumeWhile Char.isDigit (c.consume.consumeWhile isBlank)
  have hspace := Cursor.Consumes.consumeWhile isBlank
    ((c.consume.consumeWhile isBlank).consumeWhile Char.isDigit)
  have hopened := Cursor.Consumes.of_sees hopening (Cursor.atEnd_of_sees hopening (by decide))
  have hclosed := (Cursor.Consumes.consumeWhile _ _).trans
    (Cursor.Consumes.of_sees hclosing (Cursor.atEnd_of_sees hclosing (by decide)))
  have hall := hhash.trans (hgap.trans (hnumber.trans (hspace.trans (hopened.trans hclosed))))
  refine ⟨_, .intro passes (takeWhile_ne_nil hdigit (by decide)) passes passes ?_, _,
    hall.leads.ahead_eq.symm⟩
  intro x hx
  simpa using passes x hx

/-! ## The call -/

/-- A call for directives outside of strings keeps the state. It looks for a hash sign at the
beginning of a line, behind the whitespace in front of it. -/
theorem scan_lineDirectives (tag : List Char) (p : Place) :
    let first := Cursor.begin (p.skipWhile isSpace)
    (State.mk false tag).scan lineDirectives (.begin p) =
      ⟨⟨false, tag⟩, if first.sees '#' ∧ first.column = 0 then
        (lineDirective? first).map fun after => (.lineDirective, after) else none⟩ := by
  intro first
  have hother {kind : Kind} (hkind : kind ≠ .lineDirective) : kind ∉ lineDirectives := by
    simpa [lineDirectives] using hkind
  have hwanted : Kind.lineDirective ∈ lineDirectives := by simp [lineDirectives]
  simp only [State.scan, State.scanSpaced, Cursor.ignoreWhile_begin, hwanted, hother, ne_eq,
    reduceCtorEq, not_false_eq_true, false_and, and_false, if_false, Bool.not_false, true_and,
    Bool.false_eq_true]
  split <;> rfl

/-- A call that reads a directive returns it from its hash sign to the end of the line. -/
theorem call_of_isDirective (tag : List Char) {p q : Place} (h : IsDirective head)
    (column : (p.skipWhile isSpace).column = 0) (leads : (p.skipWhile isSpace).Leads head q) :
    let first := p.skipWhile isSpace
    let stop := first.skipWhile (!isLineEnd ·)
    Scanner.call (State.mk false tag) lineDirectives p =
      ⟨⟨false, tag⟩, some ⟨.lineDirective, first, stop⟩, stop⟩ := by
  intro first stop
  have hhash : (Cursor.begin first).sees '#' = true := by
    cases h
    simp [Cursor.sees, Cursor.begin, Cursor.lookahead, Place.lookahead, first, leads.ahead_eq]
  have hstop : stop = q.skipWhile (!isLineEnd ·) :=
    leads.skipWhile_eq fun x hx => by simpa using h.isLineEnd x hx
  have hscan : Scanner.scan (State.mk false tag) lineDirectives (.begin p) =
      ⟨⟨false, tag⟩, some (.lineDirective, ⟨stop, first, none⟩)⟩ := by
    refine (scan_lineDirectives tag p).trans ?_
    rw [if_pos ⟨hhash, column⟩, lineDirective?_of_isDirective h leads, hstop]
    rfl
  have hstart : (Cursor.mk stop first none).tokenStart = first :=
    Cursor.tokenStart_of_start_onward (.skipWhile _ first)
  rw [Scanner.call, hscan]
  simp [settle, Cursor.token, hstart, Cursor.stop]

/-- A line directive is returned just in case the first character behind the whitespace at the
place of the call begins both a line and a directive. The token begins there and ends where the
line does. Otherwise the call declines. The state is kept. -/
theorem line_directive_exact (tag : List Char) (p : Place) :
    let s : State := ⟨false, tag⟩
    let first := p.skipWhile isSpace
    let stop := first.skipWhile (!isLineEnd ·)
    let found := first.column = 0 ∧ ∃ head, IsDirective head ∧ head <+: first.ahead
    (found → Scanner.call s lineDirectives p =
      ⟨s, some ⟨.lineDirective, first, stop⟩, stop⟩) ∧
    (¬ found → Scanner.call s lineDirectives p = ⟨s, none, p⟩) := by
  intro s first stop found
  refine ⟨?_, fun hnone => ?_⟩
  · rintro ⟨hcolumn, head, hdirective, rest, hahead⟩
    obtain ⟨before, hfirst⟩ := first.exists_between
    rw [← hahead] at hfirst
    exact call_of_isDirective tag hdirective hcolumn ⟨before, rest, hfirst, rfl⟩
  · have hscan : Scanner.scan s lineDirectives (.begin p) = ⟨s, none⟩ := by
      refine (scan_lineDirectives tag p).trans ?_
      split
      case isTrue h =>
        cases hread : lineDirective? (.begin first) with
        | none => rfl
        | some after => exact absurd ⟨h.2, exists_isDirective h.1 hread⟩ hnone
      case isFalse => rfl
    rw [Scanner.call, hscan]
    rfl

end ContextLexer.Delimited
