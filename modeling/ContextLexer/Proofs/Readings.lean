/-
# What a sequence of calls reads

A host whose grammar is known says in advance which acceptance sets it will use. Calls
with these sets, each begun where the one before it ended, read a list of tokens, of
which kind and text matter here. Readings are put together from those of shorter
sequences.
-/

import ContextLexer.Host
import ContextLexer.Proofs.Passage
import Mathlib.Logic.Function.Iterate

namespace ContextLexer.Scanner

variable {σ κ : Type} [DecidableEq κ] [Vocabulary κ] [Scanner σ κ]

/-- The kinds and texts of the tokens of calls with given acceptance sets, each call begun
where the one before it ended, and where that leads. -/
def readings : List (Acceptance κ) → Progress σ → List (Option (κ × List Char)) × Progress σ
  | [], now => ([], now)
  | accepted :: sets, now =>
    let call := Scanner.call now.state accepted now.place
    let later := readings sets ⟨call.state, call.place⟩
    (call.token.map (fun token => (token.kind, token.text)) :: later.1, later.2)

/-- None of the calls declines. -/
def Yields (sets : List (Acceptance κ)) (now : Progress σ) (read : List (κ × List Char))
    (later : Progress σ) : Prop :=
  readings sets now = (read.map some, later)

theorem readings_append (sets others : List (Acceptance κ)) (now : Progress σ) :
    readings (sets ++ others) now =
      ((readings sets now).1 ++ (readings others (readings sets now).2).1,
        (readings others (readings sets now).2).2) := by
  induction sets generalizing now with
  | nil => rfl
  | cons accepted sets ih =>
      simp only [List.cons_append, readings, ih]

namespace Yields

variable {sets others : List (Acceptance κ)} {now middle later : Progress σ}
  {read further : List (κ × List Char)}

theorem nothing (now : Progress σ) : Yields [] now [] now := rfl

/-- Calls go on from where others ended. -/
theorem append (first : Yields sets now read middle)
    (second : Yields others middle further later) :
    Yields (sets ++ others) now (read ++ further) later := by
  rw [Yields] at first second ⊢
  rw [readings_append, first, second, List.map_append]

/-- A call that claims a text. -/
theorem claim {accepted : Acceptance κ} {state after : σ} {p : Place} {kind : κ} {c : Cursor}
    {before text rest : List Char}
    (h : Scanner.scan state accepted (.begin p) = ⟨after, some (kind, c)⟩)
    (hstart : c.start = .between before (text ++ rest))
    (hstop : c.stop = .between (before ++ text) rest) :
    Yields [accepted] ⟨state, p⟩ [(kind, text)] ⟨after, .between (before ++ text) rest⟩ := by
  have htext : c.tokenStart.since c.stop = text := by
    rw [Cursor.tokenStart, hstart, hstop, if_neg (by simp [Place.index_between]),
      Place.since_between]
  simp [Yields, readings, Scanner.call, h, settle, Cursor.token, Token.text, hstop ▸ htext, hstop]

end Yields

/-! ## One set again and again -/

/-- What a host that stands somewhere sees of a call. -/
def callFrom (accepted : Acceptance κ) (now : Progress σ) : Call σ κ :=
  Scanner.call now.state accepted now.place

/-- Where a call leaves the scanner and the host. -/
def follow (accepted : Acceptance κ) (now : Progress σ) : Progress σ :=
  ⟨(callFrom accepted now).state, (callFrom accepted now).place⟩

/-- If every token lowers a count, then calls with one set come to one that declines, and
return no more tokens before it than were counted. -/
theorem exists_declining {accepted : Acceptance κ} (holds : Progress σ → Prop)
    (count : Progress σ → Nat)
    (lowers : ∀ now token, holds now → (callFrom accepted now).token = some token →
      holds (follow accepted now) ∧ count (follow accepted now) < count now)
    {now : Progress σ} (h : holds now) :
    ∃ n ≤ count now,
      (∀ i < n, holds ((follow accepted)^[i] now) ∧
        ∃ token, (callFrom accepted ((follow accepted)^[i] now)).token = some token) ∧
      holds ((follow accepted)^[n] now) ∧
      (callFrom accepted ((follow accepted)^[n] now)).token = none := by
  generalize hbound : count now = bound
  induction bound using Nat.strongRecOn generalizing now with
  | ind bound ih =>
      subst hbound
      cases htoken : (callFrom accepted now).token with
      | none => exact ⟨0, Nat.zero_le _, fun i hi => absurd hi (Nat.not_lt_zero i), h, htoken⟩
      | some token =>
          obtain ⟨hlater, hless⟩ := lowers now token h htoken
          obtain ⟨n, hn, hbefore, hthen, hdecline⟩ := ih _ hless hlater rfl
          refine ⟨n + 1, by omega, ?_, hthen, hdecline⟩
          intro i hi
          cases i with
          | zero => exact ⟨h, token, htoken⟩
          | succ i => exact hbefore i (by omega)

end ContextLexer.Scanner
