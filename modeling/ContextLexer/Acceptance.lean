/-
# Acceptance sets

Before each call the host works out which token kinds its grammar accepts at the
current place. An acceptance set holds these kinds in index order and without
repetition, so two sets with the same kinds are equal however they were built.
-/

import ContextLexer.Vocabulary

namespace ContextLexer

/-- A set of token kinds, kept as the sublist of all kinds that belong to it. -/
structure Acceptance (κ : Type) [DecidableEq κ] [Vocabulary κ] where
  /-- The accepted kinds, in index order. -/
  kinds : List κ
  /-- The list is in index order and without repetition. -/
  ordered : kinds = Vocabulary.all.filter (· ∈ kinds)

namespace Acceptance

variable {κ : Type} [DecidableEq κ] [Vocabulary κ]

instance : Membership κ (Acceptance κ) := ⟨fun set kind => kind ∈ set.kinds⟩

instance (kind : κ) (set : Acceptance κ) : Decidable (kind ∈ set) :=
  inferInstanceAs (Decidable (kind ∈ set.kinds))

theorem mem_iff {kind : κ} {set : Acceptance κ} : kind ∈ set ↔ kind ∈ set.kinds := Iff.rfl

/-- The set of the listed kinds, in whatever order and however often they are listed. -/
def ofList (kinds : List κ) : Acceptance κ where
  kinds := Vocabulary.all.filter (· ∈ kinds)
  ordered := by
    refine List.filter_congr fun kind hkind => ?_
    simp [hkind]

@[simp] theorem mem_ofList {kind : κ} {kinds : List κ} :
    kind ∈ ofList kinds ↔ kind ∈ kinds := by
  simp [mem_iff, ofList, Vocabulary.mem_all]

/-- Two sets with the same members are equal. -/
@[ext] theorem ext {first second : Acceptance κ}
    (h : ∀ kind, kind ∈ first ↔ kind ∈ second) : first = second := by
  obtain ⟨kinds, hkinds⟩ := first
  obtain ⟨others, hothers⟩ := second
  have : kinds = others := by
    rw [hkinds, hothers]
    exact List.filter_congr fun kind _ => decide_eq_decide.mpr (h kind)
  subst this
  rfl

instance : DecidableEq (Acceptance κ) := fun first second =>
  decidable_of_iff (first.kinds = second.kinds)
    ⟨fun h => ext fun kind => by simp [mem_iff, h], fun h => h ▸ rfl⟩

/-- No kind is accepted. -/
def empty : Acceptance κ := ofList []

/-- Every kind is accepted. -/
def all : Acceptance κ := ofList Vocabulary.all

/-- The set given by a host's table of flags, in which position `i` stands for the
kind of index `i`. Flags past the last kind are ignored and missing ones are false. -/
def ofFlags (flags : List Bool) : Acceptance κ :=
  ofList (((flags.zip Vocabulary.all).filter (·.1)).map (·.2))

/-- The set with one more kind. -/
def insert (kind : κ) (set : Acceptance κ) : Acceptance κ := ofList (kind :: set.kinds)

/-- The set without a kind. -/
def erase (kind : κ) (set : Acceptance κ) : Acceptance κ :=
  ofList (set.kinds.filter (· ≠ kind))

/-- Whether a kind is accepted. -/
def contains (set : Acceptance κ) (kind : κ) : Bool := decide (kind ∈ set)

/-- Whether any of the listed kinds is accepted. -/
def containsAny (set : Acceptance κ) (kinds : List κ) : Bool := kinds.any set.contains

/-- Whether no kind is accepted. -/
def isEmpty (set : Acceptance κ) : Bool := set.kinds.isEmpty

/-- The set as text: the names of its members, separated by commas, in braces. -/
def render (set : Acceptance κ) : String :=
  "\x7b" ++ ", ".intercalate (set.kinds.map Vocabulary.name) ++ "\x7d"

@[simp] theorem not_mem_empty (kind : κ) : kind ∉ (empty : Acceptance κ) := by
  simp [empty]

@[simp] theorem mem_all (kind : κ) : kind ∈ (all : Acceptance κ) := by
  simp [all, Vocabulary.mem_all]

@[simp] theorem mem_insert {kind other : κ} {set : Acceptance κ} :
    kind ∈ set.insert other ↔ kind = other ∨ kind ∈ set := by
  simp [insert, ← mem_iff]

@[simp] theorem mem_erase {kind other : κ} {set : Acceptance κ} :
    kind ∈ set.erase other ↔ kind ≠ other ∧ kind ∈ set := by
  simp [erase, ← mem_iff, and_comm]

@[simp] theorem contains_iff {kind : κ} {set : Acceptance κ} :
    set.contains kind = true ↔ kind ∈ set := by
  simp [contains]

@[simp] theorem containsAny_iff {kinds : List κ} {set : Acceptance κ} :
    set.containsAny kinds = true ↔ ∃ kind ∈ kinds, kind ∈ set := by
  simp [containsAny]

/-- A flag decides about the kind of its own index, and about no other. -/
theorem mem_ofFlags {kind : κ} {flags : List Bool} :
    kind ∈ (ofFlags flags : Acceptance κ) ↔
      flags[Vocabulary.index kind]? = some true := by
  simp only [ofFlags, mem_ofList, List.mem_map, List.mem_filter, Prod.exists]
  constructor
  · rintro ⟨flag, found, ⟨hzip, hflag⟩, rfl⟩
    obtain ⟨i, hi, heq⟩ := List.mem_iff_getElem.mp hzip
    simp only [List.getElem_zip, Prod.mk.injEq] at heq
    simp only [List.length_zip] at hi
    have hindex : Vocabulary.index found = i :=
      Vocabulary.index_of_ofIndex? (by
        rw [Vocabulary.ofIndex?, List.getElem?_eq_getElem (by omega), heq.2])
    rw [hindex, List.getElem?_eq_getElem (by omega), heq.1, hflag]
  · intro h
    obtain ⟨hi, hflag⟩ := List.getElem?_eq_some_iff.mp h
    refine ⟨true, kind, ⟨List.mem_iff_getElem.mpr
      ⟨Vocabulary.index kind, ?_, ?_⟩, rfl⟩, rfl⟩
    · rw [List.length_zip]
      exact Nat.lt_min.mpr ⟨hi, List.idxOf_lt_length_of_mem (Vocabulary.mem_all kind)⟩
    · simpa [List.getElem_zip, Vocabulary.index] using hflag

end Acceptance

end ContextLexer
