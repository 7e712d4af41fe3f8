/-
# Counting turns

A scan that goes on has to leave its place for one further on in the text, or it would go on
for ever. This does not come by itself: a step does nothing at the end of the text, and a NUL
in the text looks like the end. Here the turns of an automaton are counted. If every turn that
goes on takes a cursor further, there are no more such turns than characters are left, and one
more turn that ends the scan.

The loops that only step over characters are automata of one kind. They come to where the
moves of a cursor lead at once.
-/

import ContextLexer.Automaton
import ContextLexer.Proofs.Boundaries

namespace ContextLexer

/-! ## Advancing -/

namespace Cursor

variable {c d later : Cursor}

/-- A cursor stands in the same text as another one, and strictly further on. -/
def Advances (c later : Cursor) : Prop := ∃ x text, c.place.Leads (x :: text) later.place

/-- Being further on is being onward, with less text left. -/
theorem advances_iff :
    c.Advances later ↔ c.place.Onward later.place ∧ later.remaining < c.remaining := by
  have hleft {text : List Char} (h : c.place.Leads text later.place) :
      c.remaining = text.length + later.remaining := by
    rw [remaining, Place.remaining, h.ahead_eq, List.length_append]
    rfl
  constructor
  · rintro ⟨x, text, h⟩
    refine ⟨⟨x :: text, h⟩, ?_⟩
    rw [hleft h, List.length_cons]
    omega
  · rintro ⟨⟨text, h⟩, hless⟩
    cases text with
    | nil =>
        rw [hleft h, List.length_nil] at hless
        omega
    | cons x text => exact ⟨x, text, h⟩

/-- Two ways onward are one, whichever of them is taken. -/
theorem onward_ite {p : Prop} [Decidable p] {first second : Cursor}
    (hfirst : c.place.Onward first.place) (hsecond : c.place.Onward second.place) :
    c.place.Onward (if p then first else second).place := by
  split
  · exact hfirst
  · exact hsecond

theorem onward_ignore (c : Cursor) : c.place.Onward c.ignore.place := by
  rw [ignore_eq]
  exact .next c.place

theorem onward_ignoreWhile (test : Char → Bool) (c : Cursor) :
    c.place.Onward (c.ignoreWhile test).place := by
  rw [ignoreWhile_eq]
  exact .skipWhile test c.place

/-- Where a character is left, stepping over it advances. -/
theorem advances_consume (h : c.atEnd = false) : c.Advances c.consume := by
  apply advances_iff.mpr
  refine ⟨.next c.place, ?_⟩
  have hpos := remaining_pos_of_not_atEnd h
  rw [remaining_consume]
  omega

theorem advances_ignore (h : c.atEnd = false) : c.Advances c.ignore := by
  apply advances_iff.mpr
  refine ⟨c.onward_ignore, ?_⟩
  have hpos := remaining_pos_of_not_atEnd h
  rw [remaining_ignore]
  omega

end Cursor

/-! ## Turns -/

namespace Turn

variable {σ ρ : Type} {turn : σ → Turn σ ρ} {cursor : σ → Cursor} {size : σ → Nat}
  {shrinks : Shrinks turn size} {state later : σ} {result : ρ} {n : Nat}

/-- An automaton stops after a number of turns, with a result. -/
inductive Stops (turn : σ → Turn σ ρ) : σ → Nat → ρ → Prop
  | done {state : σ} {result : ρ} (h : turn state = .done result) : Stops turn state 1 result
  | again {state later : σ} {n : Nat} {result : ρ} (h : turn state = .again later)
      (rest : Stops turn later n result) : Stops turn state (n + 1) result

/-- A run comes to the result with which the automaton stops. -/
theorem Stops.run_eq (h : Stops turn state n result) : run turn size shrinks state = result := by
  induction h with
  | done h => exact run_of_done h
  | again h _ ih => rw [run_of_again h, ih]

/-- Every turn but the last lowers the measure. -/
theorem stops_run (shrinks : Shrinks turn size) (state : σ) :
    ∃ n ≤ size state + 1, Stops turn state n (run turn size shrinks state) := by
  refine run_induction (fun state result => ∃ n ≤ size state + 1, Stops turn state n result)
    ?_ ?_ state
  · intro state result hdone
    exact ⟨1, Nat.le_add_left 1 _, .done hdone⟩
  · rintro state later result hagain ⟨n, hn, hstops⟩
    have hless := shrinks state later hagain
    exact ⟨n + 1, by omega, .again hagain hstops⟩

/-- An automaton that goes on from every state of a set, and stays inside of it, never stops. -/
theorem not_stops_of_invariant (holds : σ → Prop)
    (stays : ∀ state, holds state → ∃ later, turn state = .again later ∧ holds later)
    (h : holds state) : ¬ ∃ n result, Stops turn state n result := by
  rintro ⟨n, result, hstops⟩
  induction hstops with
  | done hdone =>
      obtain ⟨later, hagain, -⟩ := stays _ h
      cases hdone.symm.trans hagain
  | again hturn _ ih =>
      obtain ⟨later, hagain, hlater⟩ := stays _ h
      obtain rfl := again.inj (hturn.symm.trans hagain)
      exact ih hlater

/-- A loop makes progress: every turn that goes on takes the cursor further, so that the loop
ends within as many turns as characters are left, and one. -/
structure Progresses (turn : σ → Turn σ ρ) (cursor : σ → Cursor) : Prop where
  advances (state later : σ) : turn state = .again later → (cursor state).Advances (cursor later)
  stops (size : σ → Nat) (shrinks : Shrinks turn size) (state : σ) :
    ∃ n ≤ (cursor state).remaining + 1, Stops turn state n (run turn size shrinks state)

/-- A turn leaves a cursor where it is or takes it onward. -/
def LeadsOnward (c : Cursor) (cursor : σ → Cursor) (turn : Turn σ ρ) : Prop :=
  turn.LeadsTo (fun later => c.place.Onward (cursor later).place) fun _ => True

/-- A loop that never goes back and always leaves less text makes progress. -/
theorem Progresses.of_leadsOnward
    (shrinks : Shrinks turn fun state => (cursor state).remaining)
    (onward : ∀ state, (turn state).LeadsOnward (cursor state) cursor) :
    Progresses turn cursor where
  advances state later hagain := by
    apply Cursor.advances_iff.mpr
    refine ⟨?_, shrinks state later hagain⟩
    have hleads := onward state
    rw [hagain] at hleads
    exact hleads
  stops size hsize state := by
    obtain ⟨n, hn, hstops⟩ := stops_run shrinks state
    refine ⟨n, hn, ?_⟩
    rw [hstops.run_eq]
    exact hstops

end Turn

/-! ## Loops that step over characters -/

namespace Cursor

/-- One turn of a loop that makes a step as long as a test of the cursor holds. -/
def whileTurn (step : Cursor → Cursor) (test : Cursor → Bool) (c : Cursor) :
    Turn Cursor Cursor :=
  if test c then .again (step c) else .done c

/-- Such a loop makes progress if it does not go on at the end of the text. -/
theorem progresses_whileTurn {step : Cursor → Cursor} {test : Cursor → Bool}
    (advances : ∀ c : Cursor, c.atEnd = false → c.Advances (step c))
    (halts : ∀ c : Cursor, c.atEnd = true → test c = false) :
    Turn.Progresses (whileTurn step test) id := by
  have hstep {c : Cursor} (h : test c = true) : c.Advances (step c) := by
    apply advances
    apply Bool.eq_false_iff.mpr
    intro hend
    rw [halts c hend] at h
    cases h
  apply Turn.Progresses.of_leadsOnward
  · intro c later h
    rw [whileTurn] at h
    split at h
    · next htest =>
      cases h
      exact (advances_iff.mp (hstep htest)).2
    · cases h
  · intro c
    rw [whileTurn]
    split
    · next htest => exact (advances_iff.mp (hstep htest)).1
    · trivial

/-- Whether a character is left, and satisfies a test. -/
def passes (test : Char → Bool) (c : Cursor) : Bool := test c.lookahead && !c.atEnd

theorem passes_eq_false_of_atEnd (test : Char → Bool) (c : Cursor) (h : c.atEnd = true) :
    c.passes test = false := by
  rw [passes, h, Bool.not_true, Bool.and_false]

theorem atEnd_of_passes {test : Char → Bool} {c : Cursor} (h : c.passes test = true) :
    c.atEnd = false := by
  apply Bool.eq_false_iff.mpr
  intro hend
  rw [c.passes_eq_false_of_atEnd test hend] at h
  cases h

/-- A test that NUL fails need not ask for the end of the text. -/
theorem passes_eq_of_nul {test : Char → Bool} (nul : test '\x00' = false) (c : Cursor) :
    c.passes test = test c.lookahead := by
  by_cases hend : c.atEnd = true
  · rw [passes_eq_false_of_atEnd test c hend, lookahead_of_atEnd hend, nul]
  · rw [passes, Bool.eq_false_iff.mpr hend, Bool.not_false, Bool.and_true]

/-- A loop that makes a step as long as characters satisfy a test comes to where a move of a
cursor leads at once, if that move may begin after the step, and does nothing where there is
nothing to step over. -/
theorem stops_whileTurn {step move : Cursor → Cursor} {test : Char → Bool}
    (steps : ∀ c, c.passes test = true → c.Advances (step c) ∧ move (step c) = move c)
    (stays : ∀ c, c.passes test = false → move c = c) (c : Cursor) :
    ∃ n, Turn.Stops (whileTurn step (passes test)) c n (move c) := by
  induction hleft : c.remaining using Nat.strongRecOn generalizing c with
  | ind left ih =>
      by_cases htest : c.passes test = true
      · obtain ⟨hadvances, hmove⟩ := steps c htest
        obtain ⟨n, hstops⟩ := ih _ (hleft ▸ (advances_iff.mp hadvances).2) (step c) rfl
        refine ⟨n + 1, .again (if_pos htest) ?_⟩
        rwa [← hmove]
      · refine ⟨1, .done ?_⟩
        rw [stays c (Bool.eq_false_iff.mpr htest)]
        exact if_neg htest

/-- Characters may be skipped one after the other. -/
theorem skipWhile_next {test : Char → Bool} {c : Cursor} (h : c.passes test = true) :
    c.place.next.skipWhile test = c.place.skipWhile test := by
  have hone := (Consumes.consume (atEnd_of_passes h)).leads
  symm
  apply hone.skipWhile_eq
  intro x hx
  rw [List.mem_singleton.mp hx]
  exact ((Bool.and_eq_true _ _).mp h).1

theorem consumeWhile_consume {test : Char → Bool} {c : Cursor} (h : c.passes test = true) :
    c.consume.consumeWhile test = c.consumeWhile test := by
  show Cursor.mk (c.place.next.skipWhile test) c.start c.mark = _
  rw [skipWhile_next h]
  rfl

theorem consumeWhile_of_not_passes {test : Char → Bool} {c : Cursor}
    (h : c.passes test = false) : c.consumeWhile test = c := by
  rw [consumeWhile, Place.skipWhile_eq_self.mpr h]

theorem stops_consumeWhile (test : Char → Bool) (c : Cursor) :
    ∃ n, Turn.Stops (whileTurn consume (passes test)) c n (c.consumeWhile test) := by
  apply stops_whileTurn
  · intro c h
    exact ⟨advances_consume (atEnd_of_passes h), consumeWhile_consume h⟩
  · intro c h
    exact consumeWhile_of_not_passes h

theorem stops_ignoreWhile (test : Char → Bool) (c : Cursor) :
    ∃ n, Turn.Stops (whileTurn ignore (passes test)) c n (c.ignoreWhile test) := by
  apply stops_whileTurn
  · intro c h
    have hend : c.atEnd = false := atEnd_of_passes h
    have hmoves : ¬ c.place.skipWhile test = c.place := by
      intro hstay
      have hstop : c.passes test = false := Place.skipWhile_eq_self.mp hstay
      rw [h] at hstop
      cases hstop
    have hignore : c.ignore = ⟨c.place.next, c.place.next, c.mark⟩ := if_neg (by simp [hend])
    refine ⟨advances_ignore hend, ?_⟩
    rw [hignore, ignoreWhile_eq, ignoreWhile_eq, if_neg hmoves]
    dsimp only
    rw [skipWhile_next h]
    split
    · next hnext => rw [hnext]
    · rfl
  · intro c h
    rw [ignoreWhile_eq, if_pos (Place.skipWhile_eq_self.mpr h), Place.skipWhile_eq_self.mpr h]

end Cursor

end ContextLexer
