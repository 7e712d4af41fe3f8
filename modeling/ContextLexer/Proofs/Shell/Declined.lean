/-
# Calls that decline

A call that returns no token opens and closes no heredoc, and in most cases it leaves the
open ones exactly as they were. But resolvers work on the innermost heredoc while they
look ahead, and what they did to it stays when their claim does not count. There are three
such lapses, and a host rules them out by the kinds that it accepts together.
-/

import ContextLexer.Proofs.Shell.Change
import ContextLexer.Proofs.Shell.Heredoc.Plain

namespace ContextLexer.Shell

/-- What a call that declines can do to the innermost heredoc, other than keep it. -/
inductive Lapse (s : State) (accepted : Accepted) (c : Cursor) (h : Heredoc) : Heredoc → Prop
  /-- It is marked as started, for a part of its body that is not returned. -/
  | started (asked : Resolver.heredocBody.asked s accepted) (raw : h.raw = false)
      (unreturned : .heredocBody ∉ accepted ∨ .heredocOpening ∉ accepted ∨
        '\x00' ∈ c.place.ahead) : Lapse s accepted c h { h with started := true }
  /-- It is cleared at the end of the text, for a last part that is not accepted. -/
  | cleared {part : BodyPart} (asked : part.resolver.asked s accepted)
      (unreturned : part.final ∉ accepted) :
      Lapse s accepted c h
        { raw := false, started := false, indented := false, delimiter := [] }
  /-- It loses its delimiter, for a new one that cannot be read. -/
  | unnamed {raw : Bool} (asked : Resolver.heredocStart.asked s accepted) :
      Lapse s accepted c h { h with raw, delimiter := [] }

/-- The innermost heredoc has changed by a lapse, and the others have not changed. -/
def Lapses (s : State) (accepted : Accepted) (c : Cursor) (later : State) : Prop :=
  ∃ h h' outer, s.heredocs = h :: outer ∧ later.heredocs = h' :: outer ∧
    Lapse s accepted c h h'

variable {s later : State} {accepted : Accepted} {c : Cursor}

/-- A change without a token keeps the open heredocs or is a lapse. -/
theorem Change.lapses (change : Change s accepted c later none) :
    later.heredocs = s.heredocs ∨ Lapses s accepted c later := by
  cases change with
  | kept | globbed => exact .inl rfl
  | cleared inner asked _ declined =>
      exact .inr ⟨_, _, _, inner, rfl, .cleared asked (declined rfl)⟩
  | started inner asked raw _ declined =>
      exact .inr ⟨_, _, _, inner, rfl, .started asked raw (declined rfl)⟩
  | named inner asked _ declined =>
      obtain rfl := declined rfl
      exact .inr ⟨_, _, _, inner, rfl, .unnamed asked⟩

/-- A set of kinds among which a body part never lacks the kind that its scan may claim. -/
structure Complete (accepted : Accepted) : Prop where
  leading : .heredocBody ∈ accepted ↔ .heredocOpening ∈ accepted
  trailing : .heredocContent ∈ accepted → .heredocEnd ∈ accepted
  delimiter : .heredocStart ∉ accepted

/-- A host that accepts complete sets, in a text without NUL, provokes no lapse. -/
theorem Lapse.not_of_complete {h h' : Heredoc} (complete : Complete accepted)
    (clean : '\x00' ∉ c.place.ahead) : ¬ Lapse s accepted c h h' := by
  intro lapse
  cases lapse with
  | started asked _ unreturned =>
      have hkinds := complete.leading
      rcases asked.1 with hopening | hbody
      · simp_all
      · simp_all
  | @cleared part asked unreturned =>
      cases part with
      | leading =>
          have hbody : Kind.heredocBody ∉ accepted := unreturned
          rcases asked.1 with hopening | hbody'
          · exact hbody (complete.leading.mpr hopening)
          · exact hbody hbody'
      | trailing => exact unreturned (complete.trailing asked.1)
  | unnamed asked => exact complete.delimiter asked.1

/-- Such a host finds every open heredoc as it was after a call that declines. -/
theorem heredocs_of_declined (complete : Complete accepted) (clean : '\x00' ∉ c.place.ahead)
    (declined : (s.scan accepted c).claim = none) :
    (s.scan accepted c).state.heredocs = s.heredocs := by
  have hchange := s.change_scan accepted c
  rw [declined] at hchange
  rcases hchange.lapses with hkept | ⟨h, h', outer, -, -, hlapse⟩
  · exact hkept
  · exact absurd hlapse (Lapse.not_of_complete complete clean)

/-- A call that declines keeps the open heredocs, up to one lapse in the innermost. -/
theorem declined_keeps_or_lapses (s : State) (accepted : Accepted) (c : Cursor)
    (declined : (s.scan accepted c).claim = none) :
    (s.scan accepted c).state.heredocs = s.heredocs ∨
      Lapses s accepted c (s.scan accepted c).state := by
  have hchange := s.change_scan accepted c
  rw [declined] at hchange
  exact hchange.lapses

/-- A body that is cut off is claimed as a whole body, and its heredoc is forgotten even if
the host accepts only the first part of one. -/
theorem declined_forgets_heredoc :
    ((State.initial.push (default : PlainHeredoc).context).scan (.ofList [.heredocOpening])
        (.begin (.first ['\n', 'x']))).claim = none ∧
      ((State.initial.push (default : PlainHeredoc).context).scan (.ofList [.heredocOpening])
        (.begin (.first ['\n', 'x']))).state.heredocs =
        [{ raw := false, started := false, indented := false, delimiter := [] }] ∧
      (default : PlainHeredoc).context.delimiter ≠ [] := by
  decide

/-- This is one of the lapses. -/
theorem declined_lapses_at_end :
    ((State.initial.push (default : PlainHeredoc).context).scan (.ofList [.heredocOpening])
        (.begin (.first ['\n', 'x']))).claim = none ∧
      Lapses (State.initial.push (default : PlainHeredoc).context) (.ofList [.heredocOpening])
        (.begin (.first ['\n', 'x']))
        ((State.initial.push (default : PlainHeredoc).context).scan (.ofList [.heredocOpening])
          (.begin (.first ['\n', 'x']))).state := by
  have hdeclined : ((State.initial.push (default : PlainHeredoc).context).scan
      (.ofList [.heredocOpening]) (.begin (.first ['\n', 'x']))).claim = none := by
    decide
  refine ⟨hdeclined, ?_⟩
  rcases declined_keeps_or_lapses _ _ _ hdeclined with hkept | hlapses
  · exact absurd hkept (by decide)
  · exact hlapses

end ContextLexer.Shell
