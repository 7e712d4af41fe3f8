/-
# Calls that one resolver decides

Most acceptance sets ask only a few resolvers. A call is understood by the first resolver
that it asks: those in front of it in the order do not matter, and once it claims a token
or declines, those behind it do not matter either.
-/

import ContextLexer.Shell.Scanner

namespace ContextLexer.Shell

variable {accepted : Accepted} {s later : State} {c d : Cursor}

/-- A walk passes by a resolver that is not asked. -/
theorem walk_of_not_asked {resolver : Resolver} (back : List Resolver)
    (silent : ¬ resolver.asked s accepted) :
    walk accepted (resolver :: back) none s c = walk accepted back none s c := by
  rw [walk, if_neg (by simp), if_pos silent]

/-- A walk passes by the resolvers that are not asked. -/
theorem walk_append {front : List Resolver} (back : List Resolver)
    (silent : ∀ resolver ∈ front, ¬ resolver.asked s accepted) :
    walk accepted (front ++ back) none s c = walk accepted back none s c := by
  induction front with
  | nil => rfl
  | cons resolver front ih =>
      have hsilent : ¬ resolver.asked s accepted := silent resolver (by simp)
      rw [List.cons_append, walk_of_not_asked _ hsilent]
      exact ih fun other hother => silent other (by simp [hother])

/-- A walk over resolvers that are never asked comes to nothing. -/
theorem walk_of_silent {back : List Resolver}
    (silent : ∀ resolver ∈ back, ∀ s, ¬ resolver.asked s accepted) (target : Option Resolver) :
    walk accepted back target s c = ⟨s, none⟩ := by
  induction back generalizing target with
  | nil => rfl
  | cons resolver back ih =>
      have hback (target : Option Resolver) : walk accepted back target s c = ⟨s, none⟩ :=
        ih (fun other hother => silent other (by simp [hother])) target
      rw [walk]
      split
      · exact hback target
      · rw [if_pos (silent resolver (by simp) s)]
        exact hback none

/-- Resolvers that are never asked may be left off the end of a walk. -/
theorem walk_append_silent (front : List Resolver) {back : List Resolver}
    (silent : ∀ resolver ∈ back, ∀ s, ¬ resolver.asked s accepted) (target : Option Resolver) :
    walk accepted (front ++ back) target s c = walk accepted front target s c := by
  induction front generalizing target s c with
  | nil => exact walk_of_silent silent target
  | cons resolver front ih =>
      rw [List.cons_append, walk, walk]
      split
      · exact ih target
      split
      · exact ih none
      split
      · exact ih none
      · exact ih _
      · rfl
      · rfl

/-- A walk goes on behind a resolver that passes, from where that has come to. -/
theorem walk_of_pass {resolver : Resolver} (back : List Resolver)
    (asked : resolver.asked s accepted)
    (passes : resolver.run s accepted c = (later, .pass d)) :
    walk accepted (resolver :: back) none s c = walk accepted back none later d := by
  rw [walk, if_neg (by simp), if_neg (not_not_intro asked), passes]

/-- Whether a ruling decides the call, and leaves nothing to other resolvers. -/
def Ruling.Decides : Ruling → Prop
  | claim _ _ | decline => True
  | pass _ | handOver _ _ => False

/-- A walk has its claim from the resolver that decides. -/
theorem run_of_walk {resolver : Resolver} {back : List Resolver} {kind : Kind}
    (asked : resolver.asked s accepted) (decides : (resolver.run s accepted c).2.Decides)
    (claims : (walk accepted (resolver :: back) none s c).claim = some (kind, d)) :
    (resolver.run s accepted c).2 = .claim kind d := by
  rw [walk, if_neg (by simp), if_neg (not_not_intro asked)] at claims
  generalize resolver.run s accepted c = result at decides claims
  obtain ⟨later, ruling⟩ := result
  cases ruling with
  | pass | handOver => exact decides.elim
  | decline => cases claims
  | claim found e =>
      dsimp only at claims
      split at claims
      · cases claims
        rfl
      · cases claims

/-- What a walk claims was claimed by a resolver that was asked, and is accepted. -/
theorem exists_run_of_walk {resolvers : List Resolver} {target : Option Resolver} {kind : Kind}
    (claims : (walk accepted resolvers target s c).claim = some (kind, d)) :
    ∃ resolver here e, Resolver.asked here accepted resolver ∧
      (resolver.run here accepted e).2 = .claim kind d ∧ kind ∈ accepted := by
  induction resolvers generalizing target s c with
  | nil => cases claims
  | cons resolver resolvers ih =>
      rw [walk] at claims
      split at claims
      · exact ih claims
      split at claims
      · exact ih claims
      next hasked =>
      split at claims
      · exact ih claims
      · exact ih claims
      · cases claims
      · next later found after hrun =>
        dsimp only at claims
        split at claims
        · next hcounts =>
          cases claims
          exact ⟨resolver, s, c, Decidable.not_not.mp hasked, by rw [hrun], hcounts.2⟩
        · cases claims

/-- A walk ends at a resolver that claims a token. -/
theorem walk_of_claim {resolver : Resolver} (back : List Resolver) {kind : Kind}
    (asked : resolver.asked s accepted)
    (claims : resolver.run s accepted c = (later, .claim kind d))
    (counts : kind.isEmittable = true ∧ kind ∈ accepted) :
    walk accepted (resolver :: back) none s c = ⟨later, some (kind, d)⟩ := by
  rw [walk, if_neg (by simp), if_neg (not_not_intro asked), claims]
  simp [counts]

/-- The resolvers in front of one in the order. -/
def Resolver.earlier (resolver : Resolver) : List Resolver := order.takeWhile (· ≠ resolver)

/-- Each resolver has one position in the order. -/
theorem Resolver.exists_order (resolver : Resolver) :
    ∃ later, order = resolver.earlier ++ resolver :: later ∧ resolver ∉ resolver.earlier ∧
      resolver ∉ later := by
  cases resolver <;> exact ⟨_, rfl, by decide, by decide⟩

/-- A call is decided by the first resolver that it asks, if that claims a token. -/
theorem State.scan_of_claim {resolver : Resolver} {kind : Kind}
    (silent : ∀ other ∈ resolver.earlier, ¬ other.asked s accepted)
    (asked : resolver.asked s accepted)
    (claims : resolver.run s accepted c = (later, .claim kind d))
    (counts : kind.isEmittable = true ∧ kind ∈ accepted) :
    s.scan accepted c = ⟨later, some (kind, d)⟩ := by
  obtain ⟨back, horder, -⟩ := resolver.exists_order
  rw [State.scan, horder, walk_append _ silent]
  exact walk_of_claim back asked claims counts

/-! ## Calls for one construct -/

/-- The kinds for whose sake a resolver is asked: unless one of them is accepted, it is not. -/
def Resolver.gate : Resolver → List Kind
  | .concatenation => [.concatenation]
  | .doubleHash => [.doubleHash]
  | .expansionSymbol => [.symbolHash]
  | .emptyValue => [.emptyValue]
  | .heredocBody => [.heredocOpening, .heredocBody]
  | .heredocEnd => [.heredocEnd]
  | .heredocContent => [.heredocContent]
  | .heredocStart => [.heredocStart]
  | .testOperator => [.testOperator]
  | .name => [.variableName, .fileDescriptor, .arrow]
  | .bareDollar => [.bareDollar]
  | .regex => [.regex, .regexNoSlash, .regexNoSpace]
  | .extendedGlob => [.extendedGlob]
  | .expansionWord => [.expansionWord]
  | .braceRange => [.braceStart]

theorem Resolver.exists_gate {resolver : Resolver} (asked : resolver.asked s accepted) :
    ∃ kind ∈ resolver.gate, kind ∈ accepted := by
  cases resolver with
  | emptyValue | expansionWord => exact ⟨_, List.mem_singleton_self _, asked⟩
  | heredocBody | name | regex => simpa [gate] using asked.1
  | _ => exact ⟨_, List.mem_singleton_self _, asked.1⟩

/-- No two resolvers are asked for the sake of one kind. -/
theorem Resolver.gate_disjoint {resolver other : Resolver} {kind : Kind}
    (h : kind ∈ resolver.gate) (hother : kind ∈ other.gate) : other = resolver := by
  cases resolver <;> simp only [gate, List.mem_cons, List.not_mem_nil, or_false] at h <;>
    rcases h with rfl | rfl | rfl <;> cases other <;> simp [gate] at hother ⊢

/-- What a call claims when the ruling of one resolver decides it. -/
def Ruling.counted (accepted : Accepted) : Ruling → Claim Kind
  | claim kind c => if kind.isEmittable ∧ kind ∈ accepted then some (kind, c) else none
  | decline | pass _ | handOver _ _ => none

@[simp] theorem Ruling.claimIf_eq_claim {condition : Bool} {kind other : Kind} :
    claimIf condition kind c = .claim other d ↔ condition = true ∧ kind = other ∧ c = d := by
  cases condition <;> simp [claimIf]

/-- What counts has been claimed, and is accepted. -/
theorem Ruling.of_counted {ruling : Ruling} {kind : Kind}
    (h : ruling.counted accepted = some (kind, c)) : ruling = .claim kind c ∧ kind ∈ accepted := by
  cases ruling with
  | decline | pass | handOver => cases h
  | claim found d =>
      rw [counted] at h
      split at h
      · next hcounts =>
        cases h
        exact ⟨rfl, hcounts.2⟩
      · cases h

theorem Ruling.eq_of_counted {claim : Claim Kind} {found : Kind × Cursor}
    (h : (ofClaim claim).counted accepted = some found) : claim = some found := by
  obtain ⟨kind, c⟩ := found
  obtain ⟨hclaim, -⟩ := Ruling.of_counted h
  cases claim with
  | none => cases hclaim
  | some other =>
      obtain ⟨rfl, rfl⟩ := Ruling.claim.inj hclaim
      rfl

/-- A call whose kinds are for the sake of one resolver, or of none, comes to what that makes of
the input. -/
theorem State.scan_of_only {resolver : Resolver} (asked : resolver.asked s accepted)
    (only : ∀ kind ∈ accepted, ∀ other : Resolver, kind ∈ other.gate → other = resolver) :
    s.scan accepted c =
      ⟨(resolver.run s accepted c).1, (resolver.run s accepted c).2.counted accepted⟩ := by
  obtain ⟨back, horder, hearlier, hback⟩ := resolver.exists_order
  have hsilent {resolvers : List Resolver} (habsent : resolver ∉ resolvers) :
      ∀ other ∈ resolvers, ∀ s, ¬ other.asked s accepted := by
    intro other hother s hasked
    obtain ⟨kind, hkind, haccepted⟩ := Resolver.exists_gate hasked
    obtain rfl := only kind haccepted other hkind
    exact habsent hother
  rw [State.scan, horder, walk_append _ fun other hother => hsilent hearlier other hother s,
    walk, if_neg (by simp), if_neg (not_not_intro asked)]
  generalize resolver.run s accepted c = result
  obtain ⟨later, ruling⟩ := result
  cases ruling with
  | pass | handOver => exact walk_of_silent (hsilent hback) _
  | decline | claim => rfl

/-- So does a call for the sake of one resolver. -/
theorem State.scan_of_gate {resolver : Resolver} (asked : resolver.asked s accepted)
    (only : ∀ kind ∈ accepted, kind ∈ resolver.gate) :
    s.scan accepted c =
      ⟨(resolver.run s accepted c).1, (resolver.run s accepted c).2.counted accepted⟩ :=
  State.scan_of_only asked fun kind hkind _ hother =>
    Resolver.gate_disjoint (only kind hkind) hother

end ContextLexer.Shell
