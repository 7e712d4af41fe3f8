/-
# Token boundaries

A scanner may move its cursor in any way before it claims a token or declines. Which text
the token covers can be told from the moves without a cursor: it ends at the last mark, or
where the moves lead if there is none, and it starts after the last character that was
ignored, unless its end lies before that. Here moves are walked through as they are, from a
place of a text, and the walk is compared with what calls return.
-/

import ContextLexer.Cursor.Move
import ContextLexer.Proofs.Onward

namespace ContextLexer

/-! ## Moves that do nothing

A cursor asks whether it can ignore anything. The answer shows in whether it moves.
-/

namespace Place

theorem next_eq_self {p : Place} : p.next = p ↔ p.atEnd = true := by
  obtain ⟨passed, ahead⟩ := p
  cases ahead <;> simp [next, atEnd]

end Place

namespace Cursor

theorem ignore_eq (c : Cursor) :
    c.ignore =
      ⟨c.place.next,
        if c.place.next = c.place then c.start else c.place.next,
        c.mark⟩ := by
  by_cases hend : c.atEnd = true
  · have hnext : c.place.next = c.place := Place.next_eq_self.mpr hend
    rw [ignore, if_pos hend, if_pos hnext, hnext]
  · have hnext : ¬ c.place.next = c.place := fun h => hend (Place.next_eq_self.mp h)
    rw [ignore, if_neg hend, if_neg hnext]

theorem ignoreWhile_eq (test : Char → Bool) (c : Cursor) :
    c.ignoreWhile test =
      ⟨c.place.skipWhile test,
        if c.place.skipWhile test = c.place then c.start else c.place.skipWhile test,
        c.mark⟩ := by
  by_cases hstay : c.place.skipWhile test = c.place
  · have hstop : ¬ (test c.lookahead && !c.atEnd) = true :=
      Bool.eq_false_iff.mp (Place.skipWhile_eq_self.mp hstay)
    rw [ignoreWhile, if_neg hstop, if_pos hstay, hstay]
  · have hgo : (test c.lookahead && !c.atEnd) = true :=
      Bool.of_not_eq_false fun h => hstay (Place.skipWhile_eq_self.mpr h)
    rw [ignoreWhile, if_pos hgo, if_neg hstay]

end Cursor

/-! ## Motions -/

/-- A move with any test. A test that NUL passes would not stop at the end of the text. -/
inductive Motion
  | consume
  | ignore
  | markEnd
  | consumeWhile (test : Char → Bool) (nul : test '\x00' = false)
  | ignoreWhile (test : Char → Bool) (nul : test '\x00' = false)

/-- The motion that a move makes, with the test of its class. -/
def Move.motion : Move → Motion
  | consume => .consume
  | ignore => .ignore
  | markEnd => .markEnd
  | consumeWhile cls => .consumeWhile cls.test cls.test_nul
  | ignoreWhile cls => .ignoreWhile cls.test cls.test_nul

namespace Motion

/-- Make the motion. -/
def apply : Motion → Cursor → Cursor
  | consume, c => c.consume
  | ignore, c => c.ignore
  | markEnd, c => c.markEnd
  | consumeWhile test _, c => c.consumeWhile test
  | ignoreWhile test _, c => c.ignoreWhile test

/-- Make motions one after the other. -/
def applyAll (motions : List Motion) (c : Cursor) : Cursor :=
  motions.foldl (fun c motion => motion.apply c) c

/-- The call that makes the given motions from a place and then claims a token of the given
kind, or declines if there is none. -/
def call {κ : Type} (motions : List Motion) (kind : Option κ) (origin : Place) :
    Option (Token κ) × Place :=
  settle origin (kind.map fun kind => (kind, applyAll motions (Cursor.begin origin)))

/-- Calls given by moves are calls given by motions. -/
theorem call_motion {κ : Type} (moves : List Move) (kind : Option κ) (origin : Place) :
    call (moves.map Move.motion) kind origin = Move.call moves kind origin := by
  have hmove (move : Move) (c : Cursor) : move.motion.apply c = move.apply c := by
    cases move <;> rfl
  simp only [call, Move.call, applyAll, Move.applyAll, List.foldl_map, hmove]

/-! ## Walks -/

/-- Where a motion leads. -/
def advance : Motion → Place → Place
  | consume, p | ignore, p => p.next
  | markEnd, p => p
  | consumeWhile test _, p | ignoreWhile test _, p => p.skipWhile test

/-- Where motions lead. -/
def reach (motions : List Motion) (p : Place) : Place :=
  motions.foldl (fun p motion => motion.advance p) p

/-- The place that a motion marks. -/
def marked : Motion → Place → Option Place
  | markEnd, p => some p
  | _, _ => none

/-- The place that a motion ignores up to, if it moves at all. -/
def ignored : Motion → Place → Option Place
  | ignore, p => if p.next = p then none else some p.next
  | ignoreWhile test _, p => if p.skipWhile test = p then none else some (p.skipWhile test)
  | _, _ => none

/-- The last of the places that motions set on their way. -/
def last (sets : Motion → Place → Option Place) : List Motion → Place → Option Place
  | [], _ => none
  | motion :: motions, p => (last sets motions (motion.advance p)).or (sets motion p)

/-- The place of the last mark, if there is one. -/
def lastMark : List Motion → Place → Option Place := last marked

/-- The place after the last character that was ignored, if there is one. -/
def lastIgnored : List Motion → Place → Option Place := last ignored

theorem advance_onward (motion : Motion) (p : Place) : p.Onward (motion.advance p) := by
  cases motion with
  | consume | ignore => exact .next p
  | markEnd => exact .refl p
  | consumeWhile test _ | ignoreWhile test _ => exact .skipWhile test p

theorem reach_onward (motions : List Motion) (p : Place) : p.Onward (reach motions p) := by
  induction motions generalizing p with
  | nil => exact .refl p
  | cons motion motions ih => exact (advance_onward motion p).trans (ih _)

theorem marked_onward {motion : Motion} {p q : Place} (h : motion.marked p = some q) :
    p.Onward q := by
  cases motion <;> simp only [marked, reduceCtorEq, Option.some.injEq] at h
  exact h ▸ .refl p

theorem ignored_onward {motion : Motion} {p q : Place} (h : motion.ignored p = some q) :
    p.Onward q := by
  cases motion with
  | consume | markEnd | consumeWhile => simp [ignored] at h
  | ignore =>
      obtain ⟨-, rfl⟩ : ¬ p.next = p ∧ p.next = q := by simpa [ignored] using h
      exact .next p
  | ignoreWhile test _ =>
      obtain ⟨-, rfl⟩ : ¬ p.skipWhile test = p ∧ p.skipWhile test = q := by
        simpa [ignored] using h
      exact .skipWhile test p

/-- Places that motions set lie ahead of where they begin, because each motion sets one
ahead of it. -/
theorem last_onward {sets : Motion → Place → Option Place}
    (onward : ∀ motion p q, sets motion p = some q → p.Onward q) {motions : List Motion}
    {p q : Place} (h : last sets motions p = some q) : p.Onward q := by
  induction motions generalizing p with
  | nil => simp [last] at h
  | cons motion motions ih =>
      rcases Option.or_eq_some_iff.mp h with later | ⟨-, now⟩
      · exact (advance_onward motion p).trans (ih later)
      · exact onward motion p q now

/-! ## Cursors on a walk -/

theorem place_apply (motion : Motion) (c : Cursor) :
    (motion.apply c).place = motion.advance c.place := by
  cases motion with
  | consume | markEnd | consumeWhile => rfl
  | ignore => rw [apply, c.ignore_eq, advance]
  | ignoreWhile test _ => rw [apply, c.ignoreWhile_eq, advance]

theorem mark_apply (motion : Motion) (c : Cursor) :
    (motion.apply c).mark = (motion.marked c.place).or c.mark := by
  cases motion with
  | consume | markEnd | consumeWhile => rfl
  | ignore =>
      rw [apply, c.ignore_eq]
      rfl
  | ignoreWhile test _ =>
      rw [apply, c.ignoreWhile_eq]
      rfl

theorem start_apply (motion : Motion) (c : Cursor) :
    some (motion.apply c).start = (motion.ignored c.place).or (some c.start) := by
  cases motion with
  | consume | markEnd | consumeWhile => rfl
  | ignore =>
      rw [apply, c.ignore_eq, ignored]
      split <;> rfl
  | ignoreWhile test _ =>
      rw [apply, c.ignoreWhile_eq, ignored]
      split <;> rfl

theorem place_applyAll (motions : List Motion) (c : Cursor) :
    (applyAll motions c).place = reach motions c.place := by
  induction motions generalizing c with
  | nil => rfl
  | cons motion motions ih =>
      rw [applyAll, List.foldl_cons, ← applyAll, ih, place_apply]
      rfl

/-- What the cursor keeps of the places that motions set is the last one. -/
theorem applyAll_keeps_last {sets : Motion → Place → Option Place}
    {kept : Cursor → Option Place}
    (keeps : ∀ motion c, kept (motion.apply c) = (sets motion c.place).or (kept c))
    (motions : List Motion) (c : Cursor) :
    kept (applyAll motions c) = (last sets motions c.place).or (kept c) := by
  induction motions generalizing c with
  | nil => rfl
  | cons motion motions ih =>
      rw [applyAll, List.foldl_cons, ← applyAll, ih, place_apply, keeps, last,
        Option.or_assoc]

theorem mark_applyAll (motions : List Motion) (p : Place) :
    (applyAll motions (Cursor.begin p)).mark = lastMark motions p := by
  rw [applyAll_keeps_last mark_apply]
  exact Option.or_none

theorem start_applyAll (motions : List Motion) (p : Place) :
    (applyAll motions (Cursor.begin p)).start = (lastIgnored motions p).getD p := by
  have h := @applyAll_keeps_last ignored (some ·.start) start_apply motions (.begin p)
  have hstart :
      some ((lastIgnored motions p).getD p) = (lastIgnored motions p).or (some p) := by
    cases lastIgnored motions p <;> rfl
  exact Option.some.inj (h.trans hstart.symm)

end Motion

/-! ## Order

A cursor compares the ends of a token by counting characters. On a walk the two are places
of one text, where counting bytes comes to the same.
-/

namespace Place

variable {p q : Place}

/-- Two places of a text with the same offset are the same. -/
theorem eq_of_offset_eq (htext : p.text = q.text) (hoffset : p.offset = q.offset) : p = q := by
  have hp := p.atOffset?_offset
  rw [htext, hoffset, q.atOffset?_offset] at hp
  exact (Option.some.inj hp).symm

/-- Of two places of a text, one is at or before the other. -/
theorem onward_total (htext : p.text = q.text) : p.Onward q ∨ q.Onward p := by
  obtain ⟨before, hp⟩ := p.exists_between
  obtain ⟨before', hq⟩ := q.exists_between
  rw [hp, hq, text_between, text_between] at htext
  rcases List.append_eq_append_iff.mp htext with
    ⟨text, hbefore, hahead⟩ | ⟨text, hbefore, hahead⟩
  · exact .inl ⟨text, before, q.ahead, hahead ▸ hp, hbefore ▸ hq⟩
  · exact .inr ⟨text, before', p.ahead, hahead ▸ hq, hbefore ▸ hp⟩

/-- The one of two places of a text that comes first. -/
def earlier (p q : Place) : Place := if p.offset ≤ q.offset then p else q

theorem offset_earlier_le (p q : Place) : (p.earlier q).offset ≤ p.offset := by
  rw [earlier]
  split
  · exact Nat.le_refl _
  · omega

theorem le_offset_earlier {r : Place} (hp : r.offset ≤ p.offset) (hq : r.offset ≤ q.offset) :
    r.offset ≤ (p.earlier q).offset := by
  rw [earlier]
  split
  · exact hp
  · exact hq

theorem text_earlier (htext : p.text = q.text) : (p.earlier q).text = q.text := by
  rw [earlier]
  split
  · exact htext
  · rfl

end Place

theorem Cursor.tokenStart_eq (c : Cursor) (htext : c.stop.text = c.start.text) :
    c.tokenStart = c.stop.earlier c.start := by
  rcases Place.onward_total htext with hstop | hstart
  · rw [tokenStart_of_stop_onward hstop]
    exact (if_pos hstop.offset_le).symm
  · rw [tokenStart_of_start_onward hstart, Place.earlier]
    split
    · next hle =>
      exact Place.eq_of_offset_eq htext.symm (Nat.le_antisymm hstart.offset_le hle)
    · rfl

/-! ## Calls in a session -/

namespace Motion

/-- Where motions from a place end a token. -/
def stop (motions : List Motion) (p : Place) : Place :=
  (lastMark motions p).getD (reach motions p)

/-- Where motions from a place start a token. -/
def start (motions : List Motion) (p : Place) : Place :=
  (stop motions p).earlier ((lastIgnored motions p).getD p)

theorem stop_onward (motions : List Motion) (p : Place) : p.Onward (stop motions p) := by
  rw [stop]
  cases hmark : lastMark motions p with
  | none => exact reach_onward motions p
  | some q => exact last_onward (fun _ _ _ => marked_onward) hmark

theorem lastIgnored_onward (motions : List Motion) (p : Place) :
    p.Onward ((lastIgnored motions p).getD p) := by
  cases hignored : lastIgnored motions p with
  | none => exact .refl p
  | some q => exact last_onward (fun _ _ _ => ignored_onward) hignored

theorem text_start (motions : List Motion) (p : Place) : (start motions p).text = p.text := by
  have hstop := (stop_onward motions p).text_eq
  have hignored := (lastIgnored_onward motions p).text_eq
  rw [start, Place.text_earlier (hstop.trans hignored.symm), hignored]

theorem offset_le_start (motions : List Motion) (p : Place) :
    p.offset ≤ (start motions p).offset :=
  Place.le_offset_earlier (stop_onward motions p).offset_le
    (lastIgnored_onward motions p).offset_le

variable {κ : Type}

/-- The token that a cursor has delimited after motions lies where the walk says. -/
theorem token_applyAll (motions : List Motion) (p : Place) (kind : κ) :
    (applyAll motions (.begin p)).token kind = ⟨kind, start motions p, stop motions p⟩ := by
  have hstop : (applyAll motions (.begin p)).stop = stop motions p := by
    rw [Cursor.stop, mark_applyAll, place_applyAll, stop]
    rfl
  have hstart := start_applyAll motions p
  have htext : (applyAll motions (.begin p)).stop.text
      = (applyAll motions (.begin p)).start.text := by
    rw [hstop, hstart, (stop_onward motions p).text_eq, (lastIgnored_onward motions p).text_eq]
  rw [Cursor.token, Cursor.tokenStart_eq _ htext, hstop, hstart, start]

end Motion

/-- A call made where a cursor stands. The cursor begins anew where the call leaves the
host. -/
def Cursor.call {κ : Type} (c : Cursor) (motions : List Motion) (kind : Option κ) :
    Option (Token κ) × Cursor :=
  let settled := Motion.call motions kind c.place
  (settled.1, .begin settled.2)

theorem Cursor.call_none {κ : Type} (c : Cursor) (motions : List Motion) :
    c.call motions (none : Option κ) = (none, .begin c.place) := rfl

theorem Cursor.call_some {κ : Type} (c : Cursor) (motions : List Motion) (kind : κ) :
    c.call motions (some kind) =
      (some ⟨kind, Motion.start motions c.place, Motion.stop motions c.place⟩,
        .begin (Motion.stop motions c.place)) := by
  have htoken := Motion.token_applyAll motions c.place kind
  have hstop := congrArg Token.stop htoken
  rw [Cursor.call, Motion.call, Option.map_some, settle, htoken]
  exact congrArg (fun p => (_, Cursor.begin p)) hstop

/-- What a host can do with a cursor: move it, seek an offset of its text, and make a
call. -/
inductive Deed (κ : Type)
  | move (motion : Motion)
  | seek (offset : Nat)
  | call (motions : List Motion) (kind : Option κ)

namespace Deed

variable {κ : Type}

/-- Do the deed. Only an offset of a place can be sought. -/
def perform : Deed κ → Cursor → Cursor
  | move motion, c => motion.apply c
  | seek offset, c => (Place.atOffset? c.place.text offset).elim c Cursor.begin
  | call motions kind, c => (c.call motions kind).2

/-- Do deeds one after the other. -/
def performAll (deeds : List (Deed κ)) (c : Cursor) : Cursor :=
  deeds.foldl (fun c deed => deed.perform c) c

theorem text_perform (deed : Deed κ) (c : Cursor) :
    (deed.perform c).place.text = c.place.text := by
  cases deed with
  | move motion =>
      rw [perform, Motion.place_apply]
      exact (Motion.advance_onward motion c.place).text_eq
  | seek offset =>
      rw [perform]
      cases hp : Place.atOffset? c.place.text offset with
      | none => rfl
      | some p => exact Place.text_of_atOffset? hp
  | call motions kind =>
      cases kind with
      | none => rfl
      | some kind =>
          rw [perform, Cursor.call_some]
          exact (Motion.stop_onward motions c.place).text_eq

theorem text_performAll (deeds : List (Deed κ)) (c : Cursor) :
    (performAll deeds c).place.text = c.place.text := by
  induction deeds generalizing c with
  | nil => rfl
  | cons deed deeds ih =>
      rw [performAll, List.foldl_cons, ← performAll, ih, text_perform]

/-- Whatever has been done with a cursor before a call, it has left the text as it was, and
only the place at which the cursor stands matters. A call that declines comes back to that
place. The token of a call that claims one ends at the last mark, or where the motions lead
if there is none; it starts after what was ignored last, or at the place, unless it ends
before that; and the cursor is left at its end. Both ends lie between characters, between
the place and the end of the text. -/
theorem token_boundaries (before : Cursor) (deeds : List (Deed κ)) (motions : List Motion) :
    let c := performAll deeds before
    let p := c.place
    let stop := (Motion.lastMark motions p).getD (Motion.reach motions p)
    let start := stop.earlier ((Motion.lastIgnored motions p).getD p)
    p.text = before.place.text ∧
    c.call motions (none : Option κ) = (none, .begin p) ∧
    (∀ kind : κ, c.call motions (some kind) = (some ⟨kind, start, stop⟩, .begin stop)) ∧
    p.offset ≤ start.offset ∧ start.offset ≤ stop.offset ∧
    stop.offset ≤ Utf8.size p.text ∧
    Place.atOffset? p.text start.offset = some start ∧
    Place.atOffset? p.text stop.offset = some stop := by
  intro c p stop start
  have hstop : stop.text = p.text := (Motion.stop_onward motions p).text_eq
  have hstart : start.text = p.text := Motion.text_start motions p
  refine ⟨text_performAll deeds before, c.call_none motions, c.call_some motions,
    Motion.offset_le_start motions p, Place.offset_earlier_le stop _, ?_, ?_, ?_⟩
  · exact hstop ▸ stop.offset_le_size
  · exact hstart ▸ start.atOffset?_offset
  · exact hstop ▸ stop.atOffset?_offset

end Deed

end ContextLexer
