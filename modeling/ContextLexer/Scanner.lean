/-
# Resumable scanners

A scanner keeps a state between calls. A host may come back to an earlier place, so
everything that influences later calls can be saved as a snapshot and restored from
it. A state that does not fit a snapshot is saved as the empty snapshot, which always
restores the initial state and never a part of another one.
-/

import ContextLexer.Acceptance
import ContextLexer.Capacity
import ContextLexer.Snapshot.Reader
import ContextLexer.Snapshot.Writer
import ContextLexer.Token

namespace ContextLexer

/-- What a scanner decides in a call: its state afterwards, and what it claims. -/
structure Verdict (σ κ : Type) where
  /-- The state after the call. -/
  state : σ
  /-- The claimed kind and boundaries, if the call does not decline. -/
  claim : Claim κ

/-- A type of states that a scanner for tokens of a certain kind goes through. -/
class Scanner (σ : Type) (κ : outParam Type) [DecidableEq κ] [Vocabulary κ] where
  /-- The state in which a scanner begins. -/
  initial : σ
  /-- Try to claim a token of an accepted kind at a cursor. -/
  scan : σ → Acceptance κ → Cursor → Verdict σ κ
  /-- Write the state as a snapshot. -/
  write : σ → Snapshot.Write Unit
  /-- Replace the state by the one that a snapshot tells of. -/
  load : σ → List UInt8 → Snapshot.Loaded σ

/-- What a host sees of a call. -/
structure Call (σ κ : Type) where
  /-- The state after the call. -/
  state : σ
  /-- The claimed token, unless the call declined. -/
  token : Option (Token κ)
  /-- Where the host goes on. -/
  place : Place

namespace Scanner

variable {σ κ : Type} [DecidableEq κ] [Vocabulary κ] [Scanner σ κ]

/-- Call a scanner at a place. -/
def call (state : σ) (accepted : Acceptance κ) (origin : Place) : Call σ κ :=
  let verdict := scan state accepted (Cursor.begin origin)
  let settled := settle origin verdict.claim
  ⟨verdict.state, settled.1, settled.2⟩

/-- A call returns a token of the kind that is claimed. -/
theorem kind_call (state : σ) (accepted : Acceptance κ) (origin : Place) :
    (call state accepted origin).token.map Token.kind =
      (scan state accepted (.begin origin)).claim.map Prod.fst := by
  rw [call]
  cases (scan state accepted (.begin origin)).claim <;> rfl

/-- The host goes on at the end of the token, or where the call began. -/
theorem place_call (state : σ) (accepted : Acceptance κ) (origin : Place) :
    (call state accepted origin).place =
      ((call state accepted origin).token.map Token.stop).getD origin := by
  rw [call]
  cases (scan state accepted (.begin origin)).claim <;> rfl

/-- The token of a call is what the scanner has claimed, as its cursor delimits it. -/
theorem exists_claim_of_token {state : σ} {accepted : Acceptance κ} {origin : Place}
    {token : Token κ} (h : (call state accepted origin).token = some token) :
    ∃ c, (scan state accepted (.begin origin)).claim = some (token.kind, c) ∧
      c.token token.kind = token := by
  cases hclaim : (scan state accepted (.begin origin)).claim with
  | none => simp [call, hclaim, settle] at h
  | some found =>
      obtain ⟨kind, c⟩ := found
      obtain rfl : c.token kind = token := by simpa [call, hclaim, settle] using h
      exact ⟨c, rfl, rfl⟩

/-- Two calls that claim the same return the same token and leave the host in one place. -/
theorem call_congr {state other : σ} {accepted : Acceptance κ} {origin : Place}
    (h : (scan other accepted (.begin origin)).claim =
      (scan state accepted (.begin origin)).claim) :
    (call other accepted origin).token = (call state accepted origin).token ∧
      (call other accepted origin).place = (call state accepted origin).place := by
  simp [call, h]

/-- The snapshot of a state within a capacity; it is empty if the state does not fit. -/
def save (state : σ) (capacity : Nat) : List UInt8 :=
  match write state ⟨capacity, []⟩ with
  | .ok _ writer => writer.written
  | .error _ _ => []

/-- The snapshot of a state within the standard capacity. -/
def snapshot (state : σ) : List UInt8 := save state Capacity.standard

/-- The complaint about a snapshot that was not produced by a save. -/
def corrupt (size : Nat) (error : Snapshot.Error) : String :=
  s!"corrupt scanner snapshot ({size} bytes): {error.message}"

/-- The state after restoring a snapshot. -/
def restore (state : σ) (bytes : List UInt8) : σ := (load state bytes).state

/-- The complaint about a snapshot, if there is reason for one. -/
def complaint? (state : σ) (bytes : List UInt8) : Option String :=
  (load state bytes).failure.map (corrupt bytes.length)

/-- The state after a return to the beginning, which is what the empty snapshot means. -/
def reset (state : σ) : σ := restore state []

end Scanner

end ContextLexer
