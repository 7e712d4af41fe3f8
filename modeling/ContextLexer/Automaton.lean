/-
# Automata that always stop

The longer scans are automata: a turn looks at the current state and either ends
the scan with a result or goes on in another state. A scan is its turn run again
and again, and it may be run only with a measure that every turn lowers. So each
loop is given by one function without recursion, and by one proof that it makes
progress.
-/

namespace ContextLexer

/-- What one turn of an automaton leads to. -/
inductive Turn (σ ρ : Type)
  /-- The scan goes on in this state. -/
  | again (state : σ)
  /-- The scan is over, with this result. -/
  | done (result : ρ)

namespace Turn

variable {σ ρ : Type}

/-- Every turn that goes on lowers the measure. -/
def Shrinks (turn : σ → Turn σ ρ) (size : σ → Nat) : Prop :=
  ∀ state later, turn state = again later → size later < size state

/-- Run an automaton that stops within a number of turns. -/
def runWithin (turn : σ → Turn σ ρ) (size : σ → Nat) (shrinks : Shrinks turn size) :
    (bound : Nat) → (state : σ) → size state ≤ bound → ρ
  | bound, state, hbound =>
    match hturn : turn state with
    | done result => result
    | again later =>
      match bound, hbound with
      | 0, hbound => absurd (shrinks state later hturn) (by omega)
      | bound + 1, hbound =>
        runWithin turn size shrinks bound later
          (by have := shrinks state later hturn; omega)

/-- Run an automaton from a state to its result. -/
def run (turn : σ → Turn σ ρ) (size : σ → Nat) (shrinks : Shrinks turn size)
    (state : σ) : ρ :=
  runWithin turn size shrinks (size state) state (Nat.le_refl _)

variable {turn : σ → Turn σ ρ} {size : σ → Nat} {shrinks : Shrinks turn size}

/-- The bound does not matter. -/
theorem runWithin_eq_run (bound : Nat) (state : σ) (h : size state ≤ bound) :
    runWithin turn size shrinks bound state h = run turn size shrinks state := by
  suffices main : ∀ (n bound₁ bound₂ : Nat) (state : σ) (h₁ : size state ≤ bound₁)
      (h₂ : size state ≤ bound₂), size state ≤ n →
      runWithin turn size shrinks bound₁ state h₁ =
        runWithin turn size shrinks bound₂ state h₂ from
    main (size state) _ _ state h (Nat.le_refl _) (Nat.le_refl _)
  intro n
  induction n with
  | zero =>
    intro bound₁ bound₂ state h₁ h₂ hn
    unfold runWithin
    split
    · rfl
    · next later hturn =>
      have := shrinks state later hturn
      omega
  | succ n ih =>
    intro bound₁ bound₂ state h₁ h₂ hn
    unfold runWithin
    split
    · rfl
    · next later hturn =>
      have hless := shrinks state later hturn
      obtain _ | bound₁ := bound₁
      · omega
      obtain _ | bound₂ := bound₂
      · omega
      exact ih bound₁ bound₂ later _ _ (by omega)

/-- A run is one turn followed by the run from the state that it leads to. -/
theorem run_eq (state : σ) :
    run turn size shrinks state =
      match turn state with
      | done result => result
      | again later => run turn size shrinks later := by
  rw [run]
  unfold runWithin
  split
  · next result hturn => rw [hturn]
  · next later hturn =>
    conv => rhs; rw [hturn]
    have hless := shrinks state later hturn
    split
    · omega
    · exact runWithin_eq_run _ _ _

/-- What a turn settles, and keeps when it goes on, holds of the whole run. -/
theorem run_induction (holds : σ → ρ → Prop)
    (settles : ∀ state result, turn state = done result → holds state result)
    (keeps : ∀ state later result, turn state = again later →
      holds later result → holds state result)
    (state : σ) : holds state (run turn size shrinks state) := by
  suffices main : ∀ (n : Nat) (state : σ), size state ≤ n →
      holds state (run turn size shrinks state) from
    main (size state) state (Nat.le_refl _)
  intro n
  induction n with
  | zero =>
    intro state hn
    rw [run_eq]
    split
    · next result hturn => exact settles state result hturn
    · next later hturn =>
      have := shrinks state later hturn
      omega
  | succ n ih =>
    intro state hn
    rw [run_eq]
    split
    · next result hturn => exact settles state result hturn
    · next later hturn =>
      have hless := shrinks state later hturn
      exact keeps state later _ hturn (ih later (by omega))

/-- Whatever is left by every settling turn is left by the whole run. -/
theorem run_le (left : ρ → Nat)
    (settles : ∀ state result, turn state = done result → left result ≤ size state)
    (state : σ) : left (run turn size shrinks state) ≤ size state := by
  refine run_induction (fun state result => left result ≤ size state) settles ?_ state
  intro state later result hturn hle
  have := shrinks state later hturn
  omega

theorem run_of_done {state : σ} {result : ρ} (h : turn state = done result) :
    run turn size shrinks state = result := by
  rw [run_eq, h]

theorem run_of_again {state later : σ} (h : turn state = again later) :
    run turn size shrinks state = run turn size shrinks later := by
  rw [run_eq, h]

/-- A run along a list, whose turns go on from one item to the next, comes to its end. -/
theorem run_along {α : Type} (state : List α → List α → σ) {items : List α}
    (goes : ∀ front item back, front ++ item :: back = items →
      turn (state front (item :: back)) = again (state (front ++ [item]) back)) :
    run turn size shrinks (state [] items) = run turn size shrinks (state items []) := by
  suffices main : ∀ back front, front ++ back = items →
      run turn size shrinks (state front back) = run turn size shrinks (state items []) from
    main items [] rfl
  intro back
  induction back with
  | nil =>
    intro front hitems
    rw [← hitems, List.append_nil]
  | cons item back ih =>
    intro front hitems
    rw [run_of_again (goes front item back hitems)]
    exact ih (front ++ [item]) (by rw [List.append_assoc, List.singleton_append, hitems])

/-- A run comes to a result if it begins inside an invariant from which every turn either
comes to that result or stays inside. -/
theorem run_eq_of_invariant {result : ρ} (holds : σ → Prop)
    (advances : ∀ state, holds state →
      turn state = done result ∨ ∃ later, holds later ∧ turn state = again later)
    {state : σ} (h : holds state) : run turn size shrinks state = result := by
  refine run_induction (fun state found => holds state → found = result) ?_ ?_ state h
  · intro state found hdone hstate
    rcases advances state hstate with hturn | ⟨later, -, hturn⟩
    · exact done.inj (hdone.symm.trans hturn)
    · cases hdone.symm.trans hturn
  · intro state later found hagain hfound hstate
    rcases advances state hstate with hturn | ⟨next, hnext, hturn⟩
    · cases hagain.symm.trans hturn
    · apply hfound
      rw [again.inj (hagain.symm.trans hturn)]
      exact hnext

/-- A turn goes on inside one set of states, or ends with a result in another set. -/
def LeadsTo (inside : σ → Prop) (ended : ρ → Prop) : Turn σ ρ → Prop
  | again later => inside later
  | done result => ended result

@[simp] theorem leadsTo_again {inside : σ → Prop} {ended : ρ → Prop} {later : σ} :
    (again later).LeadsTo inside ended ↔ inside later := Iff.rfl

@[simp] theorem leadsTo_done {inside : σ → Prop} {ended : ρ → Prop} {result : ρ} :
    (done result).LeadsTo inside ended ↔ ended result := Iff.rfl

theorem LeadsTo.mono {inside among : σ → Prop} {ended settled : ρ → Prop} {turn : Turn σ ρ}
    (h : turn.LeadsTo inside ended) (hinside : ∀ state, inside state → among state)
    (hended : ∀ result, ended result → settled result) : turn.LeadsTo among settled := by
  cases turn with
  | again later => exact hinside later h
  | done result => exact hended result h

/-- A run that begins inside an invariant ends as the turns from inside of it end. -/
theorem run_of_leadsTo (inside : σ → Prop) {ended : ρ → Prop}
    (leads : ∀ state, inside state → (turn state).LeadsTo inside ended)
    {state : σ} (h : inside state) : ended (run turn size shrinks state) := by
  refine run_induction (fun state result => inside state → ended result) ?_ ?_ state h
  · intro state result hdone hstate
    have hleads := leads state hstate
    rw [hdone] at hleads
    exact hleads
  · intro state later result hagain hlater hstate
    have hleads := leads state hstate
    rw [hagain] at hleads
    exact hlater hleads

/-! ## Two runs -/

/-- Two turns go on in related states, or end with related results. -/
def Agree (alike : σ → σ → Prop) (same : ρ → ρ → Prop) : Turn σ ρ → Turn σ ρ → Prop
  | again first, again second => alike first second
  | done first, done second => same first second
  | _, _ => False

/-- Turns that agree do so inside every set of states in which the first one goes on. -/
theorem Agree.inside {alike : σ → σ → Prop} {same : ρ → ρ → Prop} {inside : σ → Prop}
    {ended : ρ → Prop} {first second : Turn σ ρ}
    (agree : first.Agree alike same second) (leads : first.LeadsTo inside ended) :
    first.Agree (fun state other => alike state other ∧ inside state) same second := by
  cases first with
  | again state =>
      cases second with
      | again other => exact ⟨agree, leads⟩
      | done result => exact agree.elim
  | done result =>
      cases second with
      | again other => exact agree.elim
      | done other => exact agree

/-- Two runs that begin in related states have related results if turns from related states
agree. -/
theorem run_agree (alike : σ → σ → Prop) {same : ρ → ρ → Prop}
    (agrees : ∀ state other, alike state other → (turn state).Agree alike same (turn other))
    {first second : σ} (h : alike first second) :
    same (run turn size shrinks first) (run turn size shrinks second) := by
  refine run_induction (fun state result => ∀ other, alike state other →
    same result (run turn size shrinks other)) ?_ ?_ first second h
  · intro state result hdone other halike
    have hagree := agrees state other halike
    rw [hdone] at hagree
    cases hother : turn other with
    | again later =>
        rw [hother] at hagree
        exact hagree.elim
    | done found =>
        rw [hother] at hagree
        rw [run_of_done hother]
        exact hagree
  · intro state later result hagain hlater other halike
    have hagree := agrees state other halike
    rw [hagain] at hagree
    cases hother : turn other with
    | again next =>
        rw [hother] at hagree
        rw [run_of_again hother]
        exact hlater next hagree
    | done found =>
        rw [hother] at hagree
        exact hagree.elim

end Turn

end ContextLexer
