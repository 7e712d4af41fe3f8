/-
# Acceptance sets as sets and as words

A host can come to an acceptance set in many ways: it lists kinds in any order and again and
again, hands over a table of flags of any length, adds kinds and takes kinds away. The set
answers every question as the mathematical set of these kinds does, and two ways lead to
equal sets just in case they lead to the same kinds.

The set can also be kept in one machine word, with a bit for every kind and bitwise operations
in place of those on sets. Words are compared as a whole, so this is right only because no
operation ever sets a bit that belongs to no kind: a word holds a set if its bits are those of
the members and no others.
-/

import ContextLexer.Delimited.Kind
import ContextLexer.Offside.Kind
import ContextLexer.Shell.Kind
import ContextLexer.Acceptance
import Mathlib.Data.List.Induction
import Mathlib.Data.Set.Insert

namespace ContextLexer

namespace Vocabulary

/-- A vocabulary that has no more kinds than a machine word has bits. -/
class Narrow (κ : Type) [DecidableEq κ] [Vocabulary κ] : Prop where
  /-- There are at most 64 kinds. -/
  length_le : (all : List κ).length ≤ 64

instance : Narrow Offside.Kind := ⟨by decide⟩

instance : Narrow Delimited.Kind := ⟨by decide⟩

instance : Narrow Shell.Kind := ⟨by decide⟩

variable {κ : Type} [DecidableEq κ] [Vocabulary κ]

/-- Kinds with the same index are the same. -/
theorem index_inj {kind other : κ} : index kind = index other ↔ kind = other := by
  constructor
  · intro h
    have hkind := ofIndex?_index kind
    rw [h, ofIndex?_index other] at hkind
    exact (Option.some.inj hkind).symm
  · rintro rfl
    rfl

theorem index_lt [Narrow κ] (kind : κ) : index kind < 64 :=
  Nat.lt_of_lt_of_le (List.idxOf_lt_length_of_mem (mem_all kind)) Narrow.length_le

/-- The order of the kinds is that of their indices. -/
theorem pairwise_all : (all : List κ).Pairwise (index · < index ·) := by
  rw [List.pairwise_iff_getElem]
  intro i j hi hj hij
  have hat {k : Nat} (hk : k < (all : List κ).length) : index (all : List κ)[k] = k :=
    nodup_all.idxOf_getElem k hk
  show index (all : List κ)[i] < index (all : List κ)[j]
  rw [hat hi, hat hj]
  exact hij

end Vocabulary

namespace Acceptance

open Vocabulary (index)

variable {κ : Type} [DecidableEq κ] [Vocabulary κ]

/-- The members are listed in index order, and none of them twice. -/
theorem pairwise_kinds (set : Acceptance κ) : set.kinds.Pairwise (index · < index ·) := by
  rw [set.ordered]
  exact Vocabulary.pairwise_all.filter _

theorem isEmpty_iff {set : Acceptance κ} : set.isEmpty = true ↔ ∀ kind, kind ∉ set := by
  rw [isEmpty, List.isEmpty_iff]
  exact List.eq_nil_iff_forall_not_mem

/-- Listing the members of a set again makes the same set. -/
theorem ofList_kinds (set : Acceptance κ) : ofList set.kinds = set := by
  ext kind
  rw [mem_ofList]
  rfl

/-- A set answers every question as a mathematical set of kinds does. -/
structure AnswersAs (set : Acceptance κ) (members : Set κ) : Prop where
  contains_iff (kind : κ) : set.contains kind = true ↔ kind ∈ members
  containsAny_iff (kinds : List κ) :
    set.containsAny kinds = true ↔ ∃ kind ∈ kinds, kind ∈ members
  isEmpty_iff : set.isEmpty = true ↔ members = ∅
  /-- Just the members are listed. -/
  mem_kinds_iff (kind : κ) : kind ∈ set.kinds ↔ kind ∈ members
  /-- They are listed in index order, and none of them twice. -/
  pairwise_kinds : set.kinds.Pairwise (index · < index ·)
  /-- The list of the members makes the set again. -/
  ofList_kinds : ofList set.kinds = set

theorem AnswersAs.of_mem {set : Acceptance κ} {members : Set κ}
    (h : ∀ kind, kind ∈ set ↔ kind ∈ members) : set.AnswersAs members where
  contains_iff kind := Acceptance.contains_iff.trans (h kind)
  containsAny_iff kinds := by
    rw [Acceptance.containsAny_iff]
    simp only [h]
  isEmpty_iff := by
    rw [Acceptance.isEmpty_iff, Set.eq_empty_iff_forall_notMem]
    simp only [h]
  mem_kinds_iff := h
  pairwise_kinds := set.pairwise_kinds
  ofList_kinds := set.ofList_kinds

/-! ## Words -/

/-- The bit of a kind. -/
def bit (kind : κ) : BitVec 64 := 1#64 <<< index kind

/-- The word with the bits of the listed kinds. -/
def wordOf (kinds : List κ) : BitVec 64 := kinds.foldl (fun word kind => word ||| bit kind) 0#64

/-- Whether the bit of a kind is set in a word. -/
def tests (word : BitVec 64) (kind : κ) : Bool := word &&& bit kind ≠ 0#64

/-- A word holds a set: its bits are those of the members. -/
def Holds (word : BitVec 64) (set : Acceptance κ) : Prop :=
  ∀ i, word.getLsbD i = true ↔ ∃ kind ∈ set, index kind = i

variable {word other : BitVec 64} {set also : Acceptance κ} {kind : κ}

theorem getLsbD_bit [Vocabulary.Narrow κ] (kind : κ) (i : Nat) :
    (bit kind).getLsbD i = true ↔ index kind = i := by
  have hlt := Vocabulary.index_lt kind
  rw [bit, ← BitVec.twoPow_eq, BitVec.getLsbD_twoPow]
  simp [hlt]

/-- A word tests for a kind just in case its bit is set. -/
theorem tests_iff_getLsbD [Vocabulary.Narrow κ] (word : BitVec 64) (kind : κ) :
    tests word kind = true ↔ word.getLsbD (index kind) = true := by
  rw [← not_iff_not, tests]
  simp only [ne_eq, decide_not, Bool.not_eq_true', decide_eq_false_iff_not, not_not]
  constructor
  · intro hzero hset
    have hbit := (getLsbD_bit kind _).mpr rfl
    have hboth := congrArg (·.getLsbD (index kind)) hzero
    simp [hset, hbit] at hboth
  · intro hclear
    apply BitVec.eq_of_getLsbD_eq
    intro i _
    rw [BitVec.getLsbD_and, BitVec.getLsbD_zero, Bool.and_eq_false_iff]
    by_cases hi : index kind = i
    · left
      rw [← hi]
      exact Bool.eq_false_iff.mpr hclear
    · right
      exact Bool.eq_false_iff.mpr fun hbit => hi ((getLsbD_bit kind i).mp hbit)

namespace Holds

theorem empty : Holds 0#64 (empty : Acceptance κ) := by
  intro i
  simp

theorem insert [Vocabulary.Narrow κ] (h : Holds word set) (kind : κ) :
    Holds (word ||| bit kind) (set.insert kind) := by
  intro i
  rw [BitVec.getLsbD_or, Bool.or_eq_true, h, getLsbD_bit]
  constructor
  · rintro (⟨member, hmember, hi⟩ | hi)
    · exact ⟨member, mem_insert.mpr (.inr hmember), hi⟩
    · exact ⟨kind, mem_insert.mpr (.inl rfl), hi⟩
  · rintro ⟨member, hmember, hi⟩
    rcases mem_insert.mp hmember with rfl | hmember
    · exact .inr hi
    · exact .inl ⟨member, hmember, hi⟩

theorem erase [Vocabulary.Narrow κ] (h : Holds word set) (kind : κ) :
    Holds (word &&& ~~~ bit kind) (set.erase kind) := by
  intro i
  rw [BitVec.getLsbD_and, Bool.and_eq_true, h, BitVec.getLsbD_not]
  constructor
  · rintro ⟨⟨member, hmember, rfl⟩, hclear⟩
    refine ⟨member, mem_erase.mpr ⟨?_, hmember⟩, rfl⟩
    rintro rfl
    have hbit := (getLsbD_bit member _).mpr rfl
    simp [hbit] at hclear
  · rintro ⟨member, hmember, rfl⟩
    obtain ⟨hne, hmember⟩ := mem_erase.mp hmember
    refine ⟨⟨member, hmember, rfl⟩, ?_⟩
    have hclear : (bit kind).getLsbD (index member) = false :=
      Bool.eq_false_iff.mpr fun hbit =>
        hne (Vocabulary.index_inj.mp ((getLsbD_bit kind _).mp hbit)).symm
    rw [hclear, Bool.not_false, Bool.and_true, decide_eq_true_eq]
    exact Vocabulary.index_lt member

/-- Setting one bit after the other makes the word of a list. -/
theorem wordOf [Vocabulary.Narrow κ] (kinds : List κ) : Holds (wordOf kinds) (ofList kinds) := by
  induction kinds using List.reverseRecOn with
  | nil => exact empty
  | append_singleton kinds kind ih =>
      have hlist : ofList (kinds ++ [kind]) = (ofList kinds).insert kind := by
        ext member
        rw [mem_ofList, mem_insert, mem_ofList, List.mem_append, List.mem_singleton, or_comm]
      rw [hlist, Acceptance.wordOf, List.foldl_append]
      exact ih.insert kind

/-- The members of a set are told by the bits of a word that holds it. -/
theorem mem_iff (h : Holds word set) : kind ∈ set ↔ word.getLsbD (index kind) = true := by
  rw [h]
  constructor
  · intro hmember
    exact ⟨kind, hmember, rfl⟩
  · rintro ⟨found, hfound, hindex⟩
    rwa [← Vocabulary.index_inj.mp hindex]

theorem tests_iff [Vocabulary.Narrow κ] (h : Holds word set) :
    tests word kind = true ↔ kind ∈ set :=
  (tests_iff_getLsbD word kind).trans h.mem_iff.symm

/-- A word holds one set, and a set is held by one word. -/
theorem eq_iff (h : Holds word set) (hother : Holds other also) : word = other ↔ set = also := by
  constructor
  · rintro rfl
    ext kind
    rw [h.mem_iff, hother.mem_iff]
  · rintro rfl
    apply BitVec.eq_of_getLsbD_eq
    intro i _
    exact Bool.eq_iff_iff.mpr ((h i).trans (hother i).symm)

end Holds

/-! ## Ways to come to a set -/

/-- A way to come to an acceptance set. -/
inductive Construction (κ : Type)
  /-- No kind is accepted. -/
  | empty
  /-- Every kind is accepted. -/
  | all
  /-- Kinds are listed. -/
  | listed (kinds : List κ)
  /-- Flags are given by index. -/
  | flagged (flags : List Bool)
  /-- One kind is added. -/
  | insert (kind : κ) (earlier : Construction κ)
  /-- One kind is taken away. -/
  | erase (kind : κ) (earlier : Construction κ)

namespace Construction

/-- The kinds, as a mathematical set. -/
def members : Construction κ → Set κ
  | empty => ∅
  | all => Set.univ
  | listed kinds => {kind | kind ∈ kinds}
  | flagged flags => {kind | flags[index kind]? = some true}
  | insert kind earlier => Insert.insert kind earlier.members
  | erase kind earlier => earlier.members \ {kind}

/-- The acceptance set. -/
def build : Construction κ → Acceptance κ
  | empty => .empty
  | all => .all
  | listed kinds => .ofList kinds
  | flagged flags => .ofFlags flags
  | insert kind earlier => earlier.build.insert kind
  | erase kind earlier => earlier.build.erase kind

/-- The word, by operations on words. -/
def pack : Construction κ → BitVec 64
  | empty => 0#64
  | all => wordOf (Vocabulary.all : List κ)
  | listed kinds => wordOf kinds
  | flagged flags => wordOf (((flags.zip (Vocabulary.all : List κ)).filter (·.1)).map (·.2))
  | insert kind earlier => earlier.pack ||| bit kind
  | erase kind earlier => earlier.pack &&& ~~~ bit kind

theorem mem_build (way : Construction κ) (kind : κ) : kind ∈ way.build ↔ kind ∈ way.members := by
  induction way with
  | empty => simp [build, members]
  | all => simp [build, members]
  | listed kinds => simp [build, members]
  | flagged flags => exact mem_ofFlags
  | insert other earlier ih => rw [build, members, mem_insert, Set.mem_insert_iff, ih]
  | erase other earlier ih =>
      rw [build, members, mem_erase, Set.mem_sdiff, Set.mem_singleton_iff, ih, and_comm]

theorem build_eq_iff {first second : Construction κ} :
    first.build = second.build ↔ first.members = second.members := by
  constructor
  · intro h
    ext kind
    rw [← mem_build, ← mem_build, h]
  · intro h
    ext kind
    rw [mem_build, mem_build, h]

theorem holds_pack [Vocabulary.Narrow κ] (way : Construction κ) : Holds way.pack way.build := by
  induction way with
  | empty => exact .empty
  | all => exact .wordOf _
  | listed kinds => exact .wordOf kinds
  | flagged flags => exact .wordOf _
  | insert kind earlier ih => exact ih.insert kind
  | erase kind earlier ih => exact ih.erase kind

/-- Every way leads to a set that answers as the mathematical set of the kinds does, and two
ways lead to equal sets just in case they lead to the same kinds. The same holds of the word
that the operations on words lead to: it tests for the kinds, lists them as the set does, is
zero for no kinds, and is made again from its list. -/
theorem constructions_behave_as_sets [Vocabulary.Narrow κ] (first second : Construction κ) :
    first.build.AnswersAs first.members ∧
      (first.build = second.build ↔ first.members = second.members) ∧
      (∀ kind, tests first.pack kind = true ↔ kind ∈ first.members) ∧
      (Vocabulary.all : List κ).filter (tests first.pack) = first.build.kinds ∧
      (first.pack = 0#64 ↔ first.members = ∅) ∧
      wordOf first.build.kinds = first.pack ∧
      (first.pack = second.pack ↔ first.members = second.members) := by
  have hholds : Holds first.pack first.build := first.holds_pack
  have htests (kind : κ) : tests first.pack kind = true ↔ kind ∈ first.build :=
    hholds.tests_iff
  have hagain : Holds (wordOf first.build.kinds) first.build := by
    have hlist := Holds.wordOf first.build.kinds
    rwa [first.build.ofList_kinds] at hlist
  refine ⟨.of_mem first.mem_build, build_eq_iff, ?_, ?_, ?_, ?_, ?_⟩
  · intro kind
    exact (htests kind).trans (first.mem_build kind)
  · rw [first.build.ordered]
    apply List.filter_congr
    intro kind _
    exact Bool.eq_iff_iff.mpr ((htests kind).trans (decide_eq_true_iff).symm)
  · exact (hholds.eq_iff .empty).trans (@build_eq_iff _ _ _ first .empty)
  · exact (hagain.eq_iff hholds).mpr rfl
  · exact (hholds.eq_iff second.holds_pack).trans build_eq_iff

/-- A table of flags that is longer than the vocabulary, less a kind, and a list that names a
kind twice lead to one set and to one word. -/
theorem constructions_behave_as_sets_repeated :
    Vocabulary.Narrow Delimited.Kind ∧
      (erase .comment (flagged [true, true, false, false, false, true, true]) :
        Construction Delimited.Kind).build =
          (listed [.nul, .quotedOpening, .nul] : Construction Delimited.Kind).build ∧
      (erase .comment (flagged [true, true, false, false, false, true, true]) :
        Construction Delimited.Kind).pack =
          (listed [.nul, .quotedOpening, .nul] : Construction Delimited.Kind).pack := by
  have hmembers : (erase .comment (flagged [true, true, false, false, false, true, true]) :
      Construction Delimited.Kind).members =
        (listed [.nul, .quotedOpening, .nul] : Construction Delimited.Kind).members := by
    ext kind
    cases kind <;> simp [members] <;> decide
  obtain ⟨-, hbuild, -, -, -, -, hpack⟩ := constructions_behave_as_sets
    (erase .comment (flagged [true, true, false, false, false, true, true]) :
      Construction Delimited.Kind)
    (listed [.nul, .quotedOpening, .nul])
  exact ⟨inferInstance, hbuild.mpr hmembers, hpack.mpr hmembers⟩

end Construction

end Acceptance

end ContextLexer
