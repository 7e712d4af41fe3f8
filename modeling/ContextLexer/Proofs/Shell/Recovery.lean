/-
# Calls during error recovery

While the host resynchronizes after a syntax error, most resolvers stand back, and every
resolver that could open, mark, clear or name a heredoc is among them, as is the one that
remembers the depth of a glob. Those that are still asked look at the input and leave the
state alone, except that the delimiter of the innermost heredoc closes it. So the host finds
its heredocs again once it has recovered.
-/

import ContextLexer.Proofs.Shell.Change
import ContextLexer.Proofs.Shell.Heredoc.Plain

namespace ContextLexer.Shell

/-- The kinds that are returned during recovery. Where words of expansions are accepted,
test operators are not looked for. -/
def recoveryKinds (accepted : Accepted) : List Kind :=
  if .expansionWord ∈ accepted then [.emptyValue, .heredocEnd, .expansionWord]
  else [.emptyValue, .heredocEnd, .testOperator, .extendedGlob]

/-- The states that a call during recovery can lead to, and what it returns there. -/
inductive Recovers (s : State) (accepted : Accepted) : State → Claim Kind → Prop
  /-- The call declines, and nothing changes. -/
  | declined : Recovers s accepted s none
  /-- Nothing changes for a token that does not close a heredoc. -/
  | claimed {kind : Kind} {c : Cursor} (counts : kind ∈ accepted)
      (among : kind ∈ recoveryKinds accepted) (other : kind ≠ .heredocEnd) :
      Recovers s accepted s (some (kind, c))
  /-- The delimiter closes the innermost heredoc, and nothing else changes. -/
  | closed {h : Heredoc} {outer : List Heredoc} {c : Cursor} (inner : s.heredocs = h :: outer)
      (counts : .heredocEnd ∈ accepted) :
      Recovers s accepted { s with heredocs := outer } (some (.heredocEnd, c))

variable {s : State} {accepted : Accepted} {c d : Cursor} {kind : Kind}

/-- The resolvers that are asked during recovery. -/
theorem Resolver.asked_of_recovering {resolver : Resolver} (recovering : isRecovering accepted)
    (asked : resolver.asked s accepted) :
    resolver ∈ [.emptyValue, .heredocEnd, .testOperator, .expansionWord] := by
  cases resolver with
  | emptyValue | heredocEnd | testOperator | expansionWord => simp
  | _ => simp [Resolver.asked, recovering] at asked

/-- What one of them claims, if it is accepted, is among the kinds of recovery. -/
theorem mem_recoveryKinds {resolver : Resolver} (recovering : isRecovering accepted)
    (asked : resolver.asked s accepted)
    (claims : (resolver.run s accepted c).2 = .claim kind d) :
    kind ∈ recoveryKinds accepted := by
  have hresolver := Resolver.asked_of_recovering recovering asked
  simp only [List.mem_cons, List.not_mem_nil, or_false] at hresolver
  rcases hresolver with rfl | rfl | rfl | rfl
  · have hkind : kind ∈ Resolver.emptyValue.kinds := (rules_emptyValue c).of_claim claims
    obtain rfl := List.mem_singleton.mp hkind
    rw [recoveryKinds]
    split <;> simp
  · have hkind : kind ∈ Resolver.heredocEnd.kinds := (rules_closeHeredoc c s).of_claim claims
    obtain rfl := List.mem_singleton.mp hkind
    rw [recoveryKinds]
    split <;> simp
  · have hoperable : Operable accepted kind := (fits_testOperator accepted c).of_claim claims
    have hdollar : kind ≠ .bareDollar := fun hkind => hoperable.2.1 hkind recovering
    have hword : kind ≠ .expansionWord := fun hkind => asked.2 (hoperable.2.2 hkind)
    have hkind : kind = .testOperator ∨ kind = .extendedGlob := by
      simpa [Resolver.kinds, hdollar, hword] using hoperable.1
    rw [recoveryKinds, if_neg asked.2]
    rcases hkind with rfl | rfl <;> simp
  · have hkind : kind ∈ Resolver.expansionWord.kinds := (rules_expansionWord c).of_claim claims
    obtain rfl := List.mem_singleton.mp hkind
    have hword : Kind.expansionWord ∈ accepted := asked
    rw [recoveryKinds, if_pos hword]
    simp

/-- A change during recovery keeps the state or closes the innermost heredoc. -/
theorem Change.recovers {later : State} {claim : Claim Kind} (recovering : isRecovering accepted)
    (change : Change s accepted c later claim)
    (among : ∀ found ∈ claim, found.1 ∈ accepted ∧ found.1 ∈ recoveryKinds accepted) :
    Recovers s accepted later claim := by
  cases change with
  | kept other =>
      cases claim with
      | none => exact .declined
      | some found =>
          obtain ⟨hcounts, hamong⟩ := among found rfl
          refine .claimed hcounts hamong fun hend => other found rfl ?_
          rw [hend]
          decide
  | closed inner => exact .closed inner (among _ rfl).1
  | @opened indented =>
      -- An arrow is not among the kinds of recovery.
      have hamong : arrowKind indented ∈ recoveryKinds accepted := (among _ rfl).2
      rw [recoveryKinds] at hamong
      cases indented <;> split at hamong <;> simp [arrowKind] at hamong
  | globbed asked => exact absurd recovering asked.2
  | @cleared part _ _ _ _ asked => cases part <;> exact absurd recovering asked.2.2
  | started _ asked => exact absurd recovering asked.2.2
  | named _ asked => exact absurd recovering asked.2.1

/-- During recovery a call returns only accepted kinds of recovery, and leaves the state as it
was, except that a returned delimiter closes the innermost heredoc. So it opens, marks, clears
and names no heredoc, and keeps the depth of the glob. -/
theorem recovering_call_keeps_state (s : State) (accepted : Accepted) (c : Cursor)
    (recovering : isRecovering accepted) :
    Recovers s accepted (s.scan accepted c).state (s.scan accepted c).claim := by
  refine (s.change_scan accepted c).recovers recovering fun found hfound => ?_
  obtain ⟨resolver, here, d, hasked, hclaims, hcounts⟩ := exists_run_of_walk hfound
  exact ⟨hcounts, mem_recoveryKinds recovering hasked hclaims⟩

/-- The delimiter of an open heredoc closes it during recovery, too. -/
theorem recovering_call_keeps_state_at_end :
    isRecovering (.ofList [.heredocBody, .heredocEnd, .errorRecovery]) ∧
      Recovers (State.initial.push (default : PlainHeredoc).context)
        (.ofList [.heredocBody, .heredocEnd, .errorRecovery]) State.initial
        (some (.heredocEnd, ⟨⟨['A'], []⟩, ⟨[], ['A']⟩, none⟩)) := by
  have hrecovering : isRecovering (.ofList [.heredocBody, .heredocEnd, .errorRecovery]) := by
    decide
  have hkeeps := recovering_call_keeps_state
    (State.initial.push (default : PlainHeredoc).context)
    (.ofList [.heredocBody, .heredocEnd, .errorRecovery]) (.begin (.first ['A'])) hrecovering
  exact ⟨hrecovering, hkeeps⟩

end ContextLexer.Shell
