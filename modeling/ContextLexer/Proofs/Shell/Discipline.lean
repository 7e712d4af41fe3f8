/-
# The discipline of open heredocs

The open heredocs are a stack. The token that a call returns tells what the call did to
it: an arrow opens one heredoc, a closing delimiter ends one, and no other call changes
their number. Only the innermost heredoc is ever touched.
-/

import ContextLexer.Proofs.Shell.Change

namespace ContextLexer.Shell

/-- What a call may have done to the open heredocs, by what it returned. An arrow opens a
heredoc of which nothing is known but whether its closing line may be indented. A closing
delimiter ends the innermost heredoc, unless the end of the text stands for it: then the scan
for a later part of the body leaves the heredoc there with everything forgotten. -/
def Disciplined (s : State) (accepted : Accepted) (later : State) : Claim Kind → Prop
  | some (.arrow, _) =>
    later.heredocs =
      { raw := false, started := false, indented := false, delimiter := [] } :: s.heredocs
  | some (.arrowDash, _) =>
    later.heredocs =
      { raw := false, started := false, indented := true, delimiter := [] } :: s.heredocs
  | some (.heredocEnd, c) =>
    ∃ h outer, s.heredocs = h :: outer ∧
      (later.heredocs = outer ∨
        later.heredocs =
          { raw := false, started := false, indented := false, delimiter := [] } :: outer ∧
          .heredocContent ∈ accepted ∧ .errorRecovery ∉ accepted ∧ h.started = true ∧
          c.atEnd = true)
  | _ =>
    later.heredocs.length = s.heredocs.length ∧ later.heredocs.tail = s.heredocs.tail

variable {s later : State} {accepted : Accepted} {c : Cursor} {claim : Claim Kind}

/-- A call that returns no boundary of a heredoc may change the innermost heredoc. -/
theorem disciplined_of_other (other : ∀ found ∈ claim, found.1 ∉ heredocBoundaries)
    (same : later.heredocs.length = s.heredocs.length)
    (below : later.heredocs.tail = s.heredocs.tail) : Disciplined s accepted later claim := by
  unfold Disciplined
  split
  · exact absurd (by simp [heredocBoundaries]) (other _ rfl)
  · exact absurd (by simp [heredocBoundaries]) (other _ rfl)
  · exact absurd (by simp [heredocBoundaries]) (other _ rfl)
  · exact ⟨same, below⟩

/-- A change of the innermost heredoc by a call that returns no boundary of a heredoc. -/
theorem disciplined_of_inner {h h' : Heredoc} {outer : List Heredoc}
    (inner : s.heredocs = h :: outer) (other : ∀ found ∈ claim, found.1 ∉ heredocBoundaries) :
    Disciplined s accepted { s with heredocs := h' :: outer } claim :=
  disciplined_of_other other (by simp [inner]) (by simp [inner])

theorem disciplined_of_cleared {part : BodyPart} {h : Heredoc} {outer : List Heredoc}
    (inner : s.heredocs = h :: outer) (asked : part.resolver.asked s accepted)
    (returned : ∀ found ∈ claim, found.1 = part.final ∧ found.2.atEnd = true) :
    Disciplined s accepted { s with heredocs := .cleared :: outer } claim := by
  cases part with
  | leading =>
      refine disciplined_of_inner inner fun found hfound => ?_
      rw [(returned found hfound).1]
      decide
  | trailing =>
      cases claim with
      | none => exact disciplined_of_inner inner (by simp)
      | some found =>
          obtain ⟨kind, d⟩ := found
          obtain ⟨rfl, hend⟩ := returned _ rfl
          have hstarted := BodyPart.started_of_asked asked inner rfl
          exact ⟨h, outer, inner, .inr ⟨rfl, asked.1, asked.2.2, hstarted, hend⟩⟩

theorem Change.disciplined (change : Change s accepted c later claim) :
    Disciplined s accepted later claim := by
  cases change with
  | kept other => exact disciplined_of_other other rfl rfl
  | globbed _ other => exact disciplined_of_other other rfl rfl
  | @opened indented _ => cases indented <;> rfl
  | closed inner => exact ⟨_, _, inner, .inl rfl⟩
  | cleared inner asked returned _ => exact disciplined_of_cleared inner asked returned
  | started inner _ _ returned _ => exact disciplined_of_inner inner returned
  | named inner _ returned _ =>
      refine disciplined_of_inner inner fun found hfound => ?_
      rw [returned found hfound]
      decide

theorem Change.globDepth_eq (change : Change s accepted c later claim) :
    later.globDepth = s.globDepth ∨ Resolver.extendedGlob.asked s accepted := by
  cases change with
  | globbed asked _ => exact .inr asked
  | kept | opened | closed | cleared | started | named => exact .inl rfl

/-- Every call keeps the discipline of open heredocs, and only a call that accepts globs
and does not recover from an error changes the remembered depth. -/
theorem scan_keeps_discipline (s : State) (accepted : Accepted) (c : Cursor) :
    Disciplined s accepted (s.scan accepted c).state (s.scan accepted c).claim ∧
      ((s.scan accepted c).state.globDepth = s.globDepth ∨
        .extendedGlob ∈ accepted ∧ .errorRecovery ∉ accepted) :=
  ⟨(s.change_scan accepted c).disciplined, (s.change_scan accepted c).globDepth_eq⟩

/-- An arrow with a dash opens a heredoc inside one whose raw body has been begun. -/
theorem scan_keeps_discipline_dash :
    let h : Heredoc := { raw := true, started := true, indented := false, delimiter := ['E'] }
    let s : State := { globDepth := 3, heredocs := [h] }
    let call := s.scan (.ofList [.arrow, .arrowDash]) (.begin (.first ['<', '<', '-', 'F']))
    call.claim.map Prod.fst = some .arrowDash ∧
      call.state.heredocs =
        [{ raw := false, started := false, indented := true, delimiter := [] }, h] ∧
      call.state.globDepth = 3 := by
  intro h s call
  let d : Cursor := ⟨.between ['<', '<', '-'] ['F'], .first ['<', '<', '-', 'F'], none⟩
  have hclaim : call.claim = some (.arrowDash, d) := by decide
  obtain ⟨hstack, hdepth⟩ : Disciplined s _ call.state call.claim ∧ _ :=
    scan_keeps_discipline s _ _
  rw [hclaim] at hstack ⊢
  exact ⟨rfl, hstack, hdepth.resolve_right (by decide)⟩

end ContextLexer.Shell
