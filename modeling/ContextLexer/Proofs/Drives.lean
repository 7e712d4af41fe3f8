/-
# Drives round by round

A drive takes its acceptance sets in turn and stops early where a round finishes it. What
it comes to is told here by its rounds alone: how the rounds that are still to be played
begin with the next one, and what holds of all rounds and the place they lead to as soon as
every round keeps it.
-/

import ContextLexer.Host

namespace ContextLexer.Host

variable {σ κ : Type} [DecidableEq σ] [DecidableEq κ] [Vocabulary κ] [Scanner σ κ]
  {stride : Stride} {resumption : Resumption} {sets : List (Acceptance κ)}

/-- The acceptance set of the round after those that have been played. -/
def acceptedAfter (sets : List (Acceptance κ)) (played : List (Round σ κ)) : Acceptance κ :=
  (sets[played.length % sets.length]?).getD Acceptance.empty

variable {played : List (Round σ κ)} {now later : Progress σ} {latest : Round σ κ}

theorem roundsFrom_of_finished (limit : Nat)
    (h : round stride resumption (acceptedAfter sets played) now = (latest, later, true)) :
    roundsFrom stride resumption sets (limit + 1) played now =
      ((latest :: played).reverse, later) := by
  rw [acceptedAfter] at h
  simp only [roundsFrom, h]

theorem roundsFrom_of_not_finished (limit : Nat)
    (h : round stride resumption (acceptedAfter sets played) now = (latest, later, false)) :
    roundsFrom stride resumption sets (limit + 1) played now =
      roundsFrom stride resumption sets limit (latest :: played) later := by
  rw [acceptedAfter] at h
  simp only [roundsFrom, h]

/-- What the rounds so far satisfy and every further round keeps, all rounds satisfy. -/
theorem roundsFrom_induction (holds : List (Round σ κ) → Progress σ → Prop)
    (keeps : ∀ played accepted now, holds played now →
      holds (played ++ [(round stride resumption accepted now).1])
        (round stride resumption accepted now).2.1)
    (limit : Nat) (h : holds played.reverse now) :
    holds (roundsFrom stride resumption sets limit played now).1
      (roundsFrom stride resumption sets limit played now).2 := by
  induction limit generalizing played now with
  | zero => exact h
  | succ limit ih =>
      rcases hround : round stride resumption (acceptedAfter sets played) now with
        ⟨latest, later, finished⟩
      have hlater := keeps played.reverse (acceptedAfter sets played) now h
      rw [hround, ← List.reverse_cons] at hlater
      cases finished with
      | false =>
          rw [roundsFrom_of_not_finished limit hround]
          exact ih hlater
      | true =>
          rw [roundsFrom_of_finished limit hround]
          exact hlater

/-- What holds before the first round and is kept by every round holds of a drive. -/
theorem drive_induction (holds : List (Round σ κ) → Progress σ → Prop) {state : σ}
    {text : List Char} (begins : holds [] ⟨state, Place.first text⟩)
    (keeps : ∀ played accepted now, holds played now →
      holds (played ++ [(round stride resumption accepted now).1])
        (round stride resumption accepted now).2.1)
    (limit : Nat) :
    holds (drive stride resumption sets limit state text).1
      (drive stride resumption sets limit state text).2 :=
  roundsFrom_induction holds keeps limit begins

end ContextLexer.Host
