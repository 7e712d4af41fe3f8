/-
# Sets of code points

A property of code points is kept as the ascending list of its maximal runs.
Membership walks the list and stops at the first run that begins after the code
point, so the common code points at the front of a table are found at once.
-/

namespace ContextLexer.Unicode

/-- Closed runs of code points, each given by its first and its last member. -/
abbrev Ranges := List (Nat × Nat)

/-- Whether a code point lies in one of the runs of an ascending table. -/
def Ranges.contains : Ranges → Nat → Bool
  | [], _ => false
  | (first, last) :: later, n =>
    if n < first then false else n ≤ last || Ranges.contains later n

/-- A member lies in one of the runs. -/
theorem Ranges.exists_of_contains {table : Ranges} {n : Nat}
    (h : table.contains n = true) : ∃ run ∈ table, run.1 ≤ n ∧ n ≤ run.2 := by
  induction table with
  | nil => simp [contains] at h
  | cons run later ih =>
    obtain ⟨first, last⟩ := run
    simp only [contains] at h
    split at h
    · cases h
    · next hfirst =>
      rcases Bool.or_eq_true _ _ ▸ h with hlast | hlater
      · exact ⟨(first, last), by simp, by simpa using hfirst, by simpa using hlast⟩
      · obtain ⟨run, hrun, hn⟩ := ih hlater
        exact ⟨run, List.mem_cons_of_mem _ hrun, hn⟩

end ContextLexer.Unicode
