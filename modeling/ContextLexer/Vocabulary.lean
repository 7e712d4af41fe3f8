/-
# Vocabularies

The token kinds of a scanner form a finite vocabulary with a fixed order. The order
gives every kind an index, under which a host can keep its own tables.
-/

namespace ContextLexer

/-- A finite type of token kinds with a fixed order and a printed name for each. -/
class Vocabulary (κ : Type) [DecidableEq κ] where
  /-- Every kind, in index order. -/
  all : List κ
  /-- The printed name of a kind. -/
  name : κ → String
  /-- No kind is listed twice. -/
  nodup_all : all.Nodup
  /-- Every kind is listed. -/
  mem_all : ∀ kind, kind ∈ all

namespace Vocabulary

variable {κ : Type} [DecidableEq κ] [Vocabulary κ]

/-- The place of a kind in the order, counted from zero. -/
def index (kind : κ) : Nat := (all : List κ).idxOf kind

/-- The kind at an index, if the index is not past the last kind. -/
def ofIndex? (i : Nat) : Option κ := (all : List κ)[i]?

/-- The kind with a printed name. -/
def ofName? (name : String) : Option κ := (all : List κ).find? (Vocabulary.name · == name)

/-- Every kind is found again under its own index. -/
theorem ofIndex?_index (kind : κ) : ofIndex? (index kind) = some kind := by
  have h := List.idxOf_lt_length_of_mem (mem_all kind)
  simp [ofIndex?, index, List.getElem?_eq_getElem h]

/-- An index below the number of kinds is the index of the kind found there. -/
theorem index_of_ofIndex? {i : Nat} {kind : κ} (h : ofIndex? i = some kind) :
    index kind = i := by
  obtain ⟨hi, rfl⟩ := List.getElem?_eq_some_iff.mp h
  exact nodup_all.idxOf_getElem i hi

end Vocabulary

end ContextLexer
