/-
# Whitespace is in no other class

There are few whitespace code points, so that none of them belongs to the tables of
letters, numbers and lowercase letters is found by looking all of them up.
-/

import ContextLexer.CharClass

namespace ContextLexer

namespace Unicode

/-- The code points of a table. -/
def Ranges.members (table : Ranges) : List Nat :=
  table.flatMap fun (first, last) => List.range' first (last + 1 - first)

theorem Ranges.mem_members {table : Ranges} {n : Nat} (h : table.contains n = true) :
    n ∈ table.members := by
  obtain ⟨⟨first, last⟩, hrun, hfirst, hlast⟩ := exists_of_contains h
  refine List.mem_flatMap.mpr ⟨_, hrun, ?_⟩
  rw [List.mem_range'_1]
  omega

end Unicode

/-- A test that no whitespace code point passes. -/
theorem not_of_isSpace {test : Nat → Bool} {c : Char}
    (silent : ∀ n ∈ Unicode.whiteSpace.members, test n = false) (hc : isSpace c = true) :
    test c.toNat = false :=
  silent _ (Unicode.Ranges.mem_members hc)

theorem isLetter_of_isSpace {c : Char} (hc : isSpace c = true) : isLetter c = false :=
  not_of_isSpace (by decide +kernel) hc

theorem isAlphanumeric_of_isSpace {c : Char} (hc : isSpace c = true) :
    isAlphanumeric c = false := by
  rw [isAlphanumeric, isLetter_of_isSpace hc, Bool.false_or]
  exact not_of_isSpace (by decide +kernel) hc

theorem isLowercase_of_isSpace {c : Char} (hc : isSpace c = true) : isLowercase c = false :=
  not_of_isSpace (by decide +kernel) hc

end ContextLexer
