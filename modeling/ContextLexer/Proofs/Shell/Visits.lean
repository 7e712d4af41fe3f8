/-
# The resolvers that a call asks

The walk of a call over the resolvers ends because it never turns back. A resolver that hands
the input over names one behind it, and the others leave the input to the next. Here the
resolvers that are asked are written down, with the state and the cursor that they are given.
The last of them decides the call.

The walk asks a resolver only if the host accepts what it is asked for, whether it comes to
it step by step or because another resolver has named it.
-/

import ContextLexer.Proofs.Shell.HandOvers
import ContextLexer.Proofs.Shell.Loops
import ContextLexer.Proofs.Shell.Rulings

namespace ContextLexer.Shell

variable {accepted : Accepted} {s : State} {c d : Cursor} {target : Option Resolver}
  {resolvers : List Resolver}

/-! ## Visits -/

/-- A resolver that is asked, with the state and the cursor that it is given. -/
structure Visit where
  resolver : Resolver
  state : State
  cursor : Cursor

/-- What the resolver makes of it. -/
def Visit.result (accepted : Accepted) (visit : Visit) : State × Ruling :=
  visit.resolver.run visit.state accepted visit.cursor

/-- The visits of a walk, in the order in which it makes them. -/
def visits (accepted : Accepted) :
    (resolvers : List Resolver) → (target : Option Resolver) → State → Cursor → List Visit
  | [], _, _, _ => []
  | resolver :: resolvers, target, s, c =>
    if target.isSome ∧ target ≠ some resolver then visits accepted resolvers target s c
    else if ¬ resolver.asked s accepted then visits accepted resolvers none s c
    else
      ⟨resolver, s, c⟩ ::
        match resolver.run s accepted c with
        | (later, .pass d) => visits accepted resolvers none later d
        | (later, .handOver target d) => visits accepted resolvers (some target) later d
        | (_, .decline) | (_, .claim _ _) => []

/-- What holds of every visit that a walk can make holds of the visits that it makes. -/
theorem forall_visits (holds : Visit → Prop)
    (h : ∀ resolver s c, Resolver.asked s accepted resolver → holds ⟨resolver, s, c⟩)
    {visit : Visit} (hvisit : visit ∈ visits accepted resolvers target s c) : holds visit := by
  induction resolvers generalizing target s c with
  | nil => cases hvisit
  | cons resolver resolvers ih =>
      rw [visits] at hvisit
      split at hvisit
      · exact ih hvisit
      split at hvisit
      · exact ih hvisit
      next hasked =>
      rcases List.mem_cons.mp hvisit with rfl | hlater
      · exact h resolver s c (Decidable.not_not.mp hasked)
      split at hlater
      · exact ih hlater
      · exact ih hlater
      · cases hlater
      · cases hlater

/-- The walk passes over resolvers, and never comes back to one. -/
theorem visits_sublist (accepted : Accepted) (resolvers : List Resolver)
    (target : Option Resolver) (s : State) (c : Cursor) :
    ((visits accepted resolvers target s c).map Visit.resolver).Sublist resolvers := by
  induction resolvers generalizing target s c with
  | nil => exact .slnil
  | cons resolver resolvers ih =>
      rw [visits]
      split
      · exact (ih ..).cons resolver
      split
      · exact (ih ..).cons resolver
      rw [List.map_cons]
      apply List.Sublist.cons_cons
      split
      · exact ih ..
      · exact ih ..
      · exact List.nil_sublist _
      · exact List.nil_sublist _

/-- A resolver that is visited later is left a rest of the text. -/
theorem ahead_of_mem_visits {visit : Visit}
    (h : visit ∈ visits accepted resolvers target s c) :
    visit.cursor.place.ahead <:+ c.place.ahead := by
  induction resolvers generalizing target s c with
  | nil => cases h
  | cons resolver resolvers ih =>
      rw [visits] at h
      split at h
      · exact ih h
      split at h
      · exact ih h
      rcases List.mem_cons.mp h with rfl | hlater
      · exact List.suffix_rfl
      have hleaves := leavesTo_run accepted c s resolver
      split at hlater
      · next hrun =>
        rw [hrun] at hleaves
        exact (ih hlater).trans hleaves.2
      · next hrun =>
        rw [hrun] at hleaves
        exact (ih hlater).trans hleaves.2
      · cases hlater
      · cases hlater

/-- The verdict of a call that makes some visits, and begins in a state. -/
def verdictOf (accepted : Accepted) (s : State) (made : List Visit) : Verdict State Kind :=
  match made.getLast? with
  | none => ⟨s, none⟩
  | some visit => ⟨(visit.result accepted).1, (visit.result accepted).2.counted accepted⟩

theorem verdictOf_cons {visit : Visit} {made : List Visit} (h : made ≠ []) (s t : State) :
    verdictOf accepted s (visit :: made) = verdictOf accepted t made := by
  obtain ⟨next, rest, rfl⟩ := List.exists_cons_of_ne_nil h
  rw [verdictOf, verdictOf, List.getLast?_cons_cons]
  cases hlast : (next :: rest).getLast? with
  | none => simp at hlast
  | some last => rfl

/-- A visit that decides nothing comes to nothing, if it is the last one. -/
theorem verdictOf_cons_of_undecided {visit : Visit} {made : List Visit} {t : State}
    {ruling : Ruling} (hresult : visit.result accepted = (t, ruling)) (h : ¬ ruling.Decides) :
    verdictOf accepted s (visit :: made) = verdictOf accepted t made := by
  cases made with
  | nil =>
      show (⟨(visit.result accepted).1, (visit.result accepted).2.counted accepted⟩ :
        Verdict State Kind) = ⟨t, none⟩
      rw [hresult]
      cases ruling with
      | pass | handOver => rfl
      | decline | claim => exact absurd trivial h
  | cons next rest => exact verdictOf_cons (List.cons_ne_nil next rest) s t

theorem verdictOf_singleton (visit : Visit) :
    verdictOf accepted s [visit] =
      ⟨(visit.result accepted).1, (visit.result accepted).2.counted accepted⟩ := rfl

/-- The last visit decides the call. -/
theorem walk_eq_verdictOf :
    walk accepted resolvers target s c =
      verdictOf accepted s (visits accepted resolvers target s c) := by
  induction resolvers generalizing target s c with
  | nil => rfl
  | cons resolver resolvers ih =>
      rw [walk, visits]
      split
      · exact ih
      split
      · exact ih
      rcases hrun : resolver.run s accepted c with ⟨later, ruling⟩
      have hresult : (Visit.mk resolver s c).result accepted = (later, ruling) := hrun
      cases ruling with
      | pass d =>
          rw [verdictOf_cons_of_undecided hresult id]
          exact ih
      | handOver other d =>
          rw [verdictOf_cons_of_undecided hresult id]
          exact ih
      | decline => rw [verdictOf_singleton, hresult, Ruling.counted]
      | claim kind d => rw [verdictOf_singleton, hresult, Ruling.counted]

/-! ## Every call -/

/-- A call asks resolvers one behind the other, each of them at most once, until one decides. -/
structure WalksForward (accepted : Accepted) (s : State) (c : Cursor) : Prop where
  /-- The last visit decides the call. -/
  verdict : s.scan accepted c = verdictOf accepted s (visits accepted Resolver.order none s c)
  /-- The resolvers are visited in their order. -/
  ordered : ((visits accepted Resolver.order none s c).map Visit.resolver).Pairwise
    fun first second => first ∈ second.earlier
  length_le : (visits accepted Resolver.order none s c).length ≤ 15
  /-- No visit goes back behind the beginning of the call. -/
  rest (visit : Visit) : visit ∈ visits accepted Resolver.order none s c →
    visit.cursor.place.ahead <:+ c.place.ahead
  /-- Whoever hands the input over hands it to a later resolver, and to that for regexes only
  where the host accepts a regex. -/
  handsOver (visit : Visit) (target : Resolver) (d : Cursor) :
    visit ∈ visits accepted Resolver.order none s c →
      (visit.result accepted).2 = .handOver target d →
        visit.resolver ∈ target.earlier ∧ (target = .regex → .regexNoSpace ∈ accepted)
  /-- Where a regex is read, the host accepts regexes of some style, and the turns of the loop
  are those of the style. -/
  regex (visit : Visit) :
    visit ∈ visits accepted Resolver.order none s c → visit.resolver = .regex →
      (.regex ∈ accepted ∨ .regexNoSlash ∈ accepted ∨ .regexNoSpace ∈ accepted) ∧
        styledTurn (regexStyle? accepted) = regexTurn (regexStyle accepted)

theorem walksForward (accepted : Accepted) (s : State) (c : Cursor) :
    WalksForward accepted s c where
  verdict := walk_eq_verdictOf
  ordered := by
    have horder : Resolver.order.Pairwise fun first second => first ∈ second.earlier := by decide
    exact horder.sublist (visits_sublist ..)
  length_le := by
    have hle := (visits_sublist accepted Resolver.order none s c).length_le
    rwa [List.length_map] at hle
  rest _ := ahead_of_mem_visits
  handsOver visit target d _ hresult := by
    have hmay : visit.resolver.MayHandTo accepted target := mayHandTo_of_run hresult
    refine ⟨hmay.mem_earlier, ?_⟩
    rintro rfl
    exact hmay.regexNoSpace_mem
  regex visit hvisit hregex := by
    have hasked : visit.resolver.asked visit.state accepted :=
      forall_visits (fun visit => visit.resolver.asked visit.state accepted)
        (fun _ _ _ hasked => hasked) hvisit
    rw [hregex] at hasked
    refine ⟨hasked.1, ?_⟩
    rw [regexStyle?_eq hasked.1]
    rfl

end ContextLexer.Shell
