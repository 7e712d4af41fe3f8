/-
# Rounds played up to a condition

A host plays round after round until a condition of its own holds. The rounds that lead
from one standing to another, none of them begun where the condition holds, are a
relation here, so nothing has to be said in advance about how many there will be. Each
round is determined by where it begins: there is at most one way to reach the condition.
-/

import ContextLexer.Host

namespace ContextLexer.Host

variable {σ κ : Type} [DecidableEq σ] [DecidableEq κ] [Vocabulary κ] [Scanner σ κ]

/-- Rounds with one acceptance set, played one after the other, none of them begun where
the condition holds. -/
inductive Plays (stride : Stride) (accepted : Acceptance κ) (stop : Progress σ → Prop) :
    Progress σ → List (Round σ κ) → Progress σ → Prop
  /-- No round is played. -/
  | rest (now : Progress σ) : Plays stride accepted stop now [] now
  /-- A round is played, and then others. -/
  | round {now final : Progress σ} {rounds : List (Round σ κ)} (unsettled : ¬ stop now)
      (later : Plays stride accepted stop (round stride .straight accepted now).2.1
        rounds final) :
      Plays stride accepted stop now
        ((Host.round stride .straight accepted now).1 :: rounds) final

namespace Plays

variable {stride : Stride} {accepted : Acceptance κ} {stop : Progress σ → Prop}
  {now middle final other : Progress σ} {rounds others : List (Round σ κ)}

/-- Rounds are played on from where others ended. -/
theorem append (first : Plays stride accepted stop now rounds middle)
    (later : Plays stride accepted stop middle others final) :
    Plays stride accepted stop now (rounds ++ others) final := by
  induction first with
  | rest now => exact later
  | round unsettled _ ih => exact .round unsettled (ih later)

/-- The rounds up to the condition, and where it is reached, are determined. -/
theorem unique (first : Plays stride accepted stop now rounds final) (hfinal : stop final)
    (second : Plays stride accepted stop now others other) (hother : stop other) :
    rounds = others ∧ final = other := by
  induction first generalizing others with
  | rest now =>
      cases second with
      | rest => exact ⟨rfl, rfl⟩
      | round unsettled _ => exact absurd hfinal unsettled
  | round unsettled _ ih =>
      cases second with
      | rest => exact absurd hother unsettled
      | round _ later =>
          obtain ⟨rfl, rfl⟩ := ih hfinal later
          exact ⟨rfl, rfl⟩

end Plays

/-! ## What a host sees -/

/-- A token of the scanner, or a text that the host takes itself. -/
inductive Event (κ : Type)
  | token (kind : κ)
  | taken (text : List Char)
  deriving DecidableEq, Repr

/-- What a round adds to the stream. -/
def events (played : Round σ κ) : List (Event κ) :=
  (played.token.map fun token => .token token.kind).toList ++
    (played.taken.map .taken).toList

variable {accepted : Acceptance κ} {later : σ}

/-- A round whose call claims a token shows the token, and goes on at its end. -/
theorem round_of_claim (state : σ) (p : Place) {kind : κ} {c : Cursor}
    (h : Scanner.scan state accepted (.begin p) = ⟨later, some (kind, c)⟩) :
    (round .word .straight accepted ⟨state, p⟩).2.1 = ⟨later, c.stop⟩ ∧
      events (round .word .straight accepted ⟨state, p⟩).1 = [.token kind] := by
  simp [round, Resumption.resume, Scanner.call, h, settle, events, Cursor.token]

/-- A round whose call declines in front of a text shows the word that the host takes. -/
theorem round_of_decline (state : σ) {p : Place} (hend : p.atEnd = false)
    (h : Scanner.scan state accepted (.begin p) = ⟨later, none⟩) :
    (round .word .straight accepted ⟨state, p⟩).2.1 = ⟨later, p.skipWord⟩ ∧
      events (round .word .straight accepted ⟨state, p⟩).1 =
        [.taken (p.since p.skipWord)] := by
  simp [round, Resumption.resume, Scanner.call, h, settle, events, hend, Stride.advance]

end ContextLexer.Host
