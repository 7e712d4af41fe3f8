/-
# Choosing a capacity

A value of the environment variable chooses a capacity if it is a numeral between whitespace:
an optional plus sign, then decimal digits of a positive number that a machine word can hold.
The number of digits says nothing about the number, as there may be any number of zeros in
front. Here numerals are made from their digits and not read, and the number is the sum of the
digits with their powers of ten; that every value is read as the number it was made from, and
that no other value is read at all, is then the content of the theorems.
-/

import ContextLexer.Capacity
import Mathlib.Data.List.DropRight
import Mathlib.Data.List.Induction
import Mathlib.Data.Nat.Digits.Defs

namespace ContextLexer.Capacity

/-! ## Whitespace at the ends -/

/-- A text without its leading and trailing whitespace. -/
structure Stripped (text core : List Char) : Prop where
  /-- What is left out at the two ends is whitespace. -/
  between : ∃ lead trail, text = lead ++ core ++ trail ∧
    (∀ c ∈ lead, isSpace c = true) ∧ ∀ c ∈ trail, isSpace c = true
  /-- Nothing more can be left out in front. -/
  head (c : Char) : c ∈ core.head? → isSpace c = false
  /-- Nothing more can be left out at the end. -/
  last (c : Char) : c ∈ core.getLast? → isSpace c = false

theorem trim_eq_rdropWhile (text : List Char) :
    trim text = (text.dropWhile isSpace).rdropWhile isSpace := rfl

theorem stripped_trim (text : List Char) : Stripped text (trim text) where
  between := by
    refine ⟨text.takeWhile isSpace, (text.dropWhile isSpace).rtakeWhile isSpace, ?_, ?_, ?_⟩
    · rw [trim_eq_rdropWhile, List.append_assoc, List.rdropWhile_append_rtakeWhile,
        List.takeWhile_append_dropWhile]
    · exact fun c => List.mem_takeWhile_imp
    · exact fun c => List.mem_rtakeWhile_imp
  head c hc := by
    -- The first character that is left is the first one that the search from the left stops at.
    have hfront : c ∈ (text.dropWhile isSpace).head? := by
      obtain ⟨rest, hrest⟩ := List.rdropWhile_prefix isSpace (text.dropWhile isSpace)
      rw [trim_eq_rdropWhile, Option.mem_def] at hc
      rw [← hrest, List.head?_append, hc]
      rfl
    have hstop := List.head?_dropWhile_not isSpace text
    rw [Option.mem_def.mp hfront] at hstop
    simpa using hstop
  last c hc := by
    obtain ⟨hne, rfl⟩ := List.mem_getLast?_eq_getLast hc
    exact Bool.eq_false_iff.mpr (List.rdropWhile_last_not isSpace _ hne)

theorem Stripped.trim_eq {text core : List Char} (h : Stripped text core) : trim text = core := by
  obtain ⟨lead, trail, rfl, hlead, htrail⟩ := h.between
  have hend : (core ++ trail).rdropWhile isSpace = core := by
    rw [List.rdropWhile, List.reverse_append,
      List.dropWhile_append_of_pos fun c hc => htrail c (List.mem_reverse.mp hc)]
    cases hcore : core.reverse with
    | nil => exact (List.reverse_eq_nil_iff.mp hcore).symm
    | cons c rest =>
        have hc : isSpace c = false := h.last c (by rw [← List.head?_reverse, hcore]; rfl)
        rw [List.dropWhile_cons_of_neg (by simp [hc]), ← hcore, List.reverse_reverse]
  rw [trim_eq_rdropWhile, List.append_assoc, List.dropWhile_append_of_pos hlead]
  cases core with
  | nil =>
      rw [List.nil_append, List.dropWhile_eq_nil_iff.mpr htrail, List.rdropWhile_nil]
  | cons c rest =>
      have hc : isSpace c = false := h.head c rfl
      rw [List.cons_append, List.dropWhile_cons_of_neg (by simp [hc]), ← List.cons_append]
      exact hend

/-- There is one way to leave out the whitespace at the ends. -/
theorem trim_eq_iff {text core : List Char} : trim text = core ↔ Stripped text core := by
  constructor
  · rintro rfl
    exact stripped_trim text
  · exact Stripped.trim_eq

/-! ## Numerals -/

/-- The characters of decimal digits. -/
def spelling (digits : List (Fin 10)) : List Char :=
  digits.map fun digit : Fin 10 => Nat.digitChar digit

/-- The number with the given decimal digits, most significant first. -/
def number (digits : List (Fin 10)) : Nat := Nat.ofDigits 10 (digits.reverse.map Fin.val)

/-- A text is a numeral for a number: at least one digit, with or without a plus sign. -/
inductive Numeral : List Char → Nat → Prop
  | bare (digits : List (Fin 10)) (hne : digits ≠ []) : Numeral (spelling digits) (number digits)
  | signed (digits : List (Fin 10)) (hne : digits ≠ []) :
      Numeral ('+' :: spelling digits) (number digits)

theorem isDigit_digitChar (digit : Fin 10) : (Nat.digitChar digit).isDigit = true := by
  rw [Nat.isDigit_digitChar, decide_eq_true_iff]
  exact digit.isLt

theorem toNat_digitChar : ∀ digit : Fin 10, (Nat.digitChar digit).toNat - '0'.toNat = digit := by
  decide

/-- A digit has the character code of zero, raised by the digit. -/
theorem exists_digitChar {c : Char} (hc : c.isDigit = true) :
    ∃ digit : Fin 10, Nat.digitChar digit = c := by
  obtain ⟨hlow, hhigh⟩ := Char.isDigit_iff_toNat.mp hc
  have hvalue : ∀ digit : Fin 10, Nat.digitChar digit = Char.ofNat ('0'.toNat + digit) := by decide
  have hlt : c.toNat - '0'.toNat < 10 := by
    change '0'.toNat ≤ _ at hlow
    have hspan : '9'.toNat = '0'.toNat + 9 := rfl
    omega
  refine ⟨⟨c.toNat - '0'.toNat, hlt⟩, ?_⟩
  rw [hvalue]
  show Char.ofNat ('0'.toNat + (c.toNat - '0'.toNat)) = c
  rw [Nat.add_sub_cancel' hlow, Char.ofNat_toNat]

theorem exists_spelling {text : List Char} (h : text.all Char.isDigit = true) :
    ∃ digits, spelling digits = text := by
  induction text with
  | nil => exact ⟨[], rfl⟩
  | cons c rest ih =>
      rw [List.all_cons, Bool.and_eq_true] at h
      obtain ⟨digit, rfl⟩ := exists_digitChar h.1
      obtain ⟨digits, rfl⟩ := ih h.2
      exact ⟨digit :: digits, rfl⟩

theorem all_isDigit_spelling (digits : List (Fin 10)) :
    (spelling digits).all Char.isDigit = true := by
  rw [List.all_eq_true]
  intro c hc
  obtain ⟨digit, -, rfl⟩ := List.mem_map.mp hc
  exact isDigit_digitChar digit

theorem decimal_append_singleton (text : List Char) (c : Char) :
    decimal (text ++ [c]) = 10 * decimal text + (c.toNat - '0'.toNat) :=
  List.foldl_concat ..

/-- Reading from left to right comes to the sum of the digits with their powers of ten. -/
theorem decimal_spelling (digits : List (Fin 10)) : decimal (spelling digits) = number digits := by
  induction digits using List.reverseRecOn with
  | nil => rfl
  | append_singleton digits digit ih =>
      calc decimal (spelling (digits ++ [digit]))
          = decimal (spelling digits ++ [Nat.digitChar digit]) := by
            rw [spelling, List.map_append]; rfl
        _ = 10 * decimal (spelling digits) + digit := by
            rw [decimal_append_singleton, toNat_digitChar]
        _ = digit + 10 * number digits := by rw [ih, Nat.add_comm]
        _ = number (digits ++ [digit]) := by
            rw [number, number, List.reverse_append, List.reverse_singleton, List.singleton_append,
              List.map_cons, Nat.ofDigits_cons]

/-- No digit is taken for a sign. -/
theorem digitsOf_spelling (digits : List (Fin 10)) :
    digitsOf (spelling digits) = spelling digits := by
  cases digits with
  | nil => rfl
  | cons digit rest =>
      have hplus : ∀ digit : Fin 10, Nat.digitChar digit ≠ '+' := by decide
      show digitsOf (Nat.digitChar digit :: spelling rest) = Nat.digitChar digit :: spelling rest
      unfold digitsOf
      split
      · next heq => exact absurd (List.cons.inj heq).1 (hplus digit)
      · rfl

theorem Numeral.digitsOf_eq {text : List Char} {n : Nat} (h : Numeral text n) :
    ∃ digits, digits ≠ [] ∧ digitsOf text = spelling digits ∧ n = number digits := by
  cases h with
  | bare digits hne => exact ⟨digits, hne, digitsOf_spelling digits, rfl⟩
  | signed digits hne => exact ⟨digits, hne, rfl, rfl⟩

/-- If all that follows the sign of a text are digits, the text is a numeral. -/
theorem numeral_of_digitsOf {text : List Char} {digits : List (Fin 10)} (hne : digits ≠ [])
    (h : digitsOf text = spelling digits) : Numeral text (number digits) := by
  unfold digitsOf at h
  split at h
  · rw [h]
    exact .signed digits hne
  · rw [h]
    exact .bare digits hne

/-- Just the numerals for numbers that fit are read. -/
theorem number?_eq_some_iff {text : List Char} {n : Nat} :
    number? text = some n ↔ Numeral text n ∧ n ≤ largest := by
  rw [number?]
  constructor
  · intro h
    split at h
    · next hread =>
        obtain ⟨hne, hall, hfits⟩ := hread
        obtain rfl := Option.some.inj h
        obtain ⟨digits, hdigits⟩ := exists_spelling hall
        have hspelled : digits ≠ [] := by
          rintro rfl
          exact hne hdigits.symm
        refine ⟨?_, hfits⟩
        rw [← hdigits, decimal_spelling]
        exact numeral_of_digitsOf hspelled hdigits.symm
    · cases h
  · rintro ⟨hnumeral, hfits⟩
    obtain ⟨digits, hne, hdigits, rfl⟩ := hnumeral.digitsOf_eq
    rw [hdigits, decimal_spelling, if_pos]
    refine ⟨?_, all_isDigit_spelling digits, hfits⟩
    exact fun hnil => hne (List.map_eq_nil_iff.mp hnil)

/-! ## Overflow -/

/-- One more digit at the end of a number in a machine word, if the word does not overflow. -/
def push (n : Nat) (c : Char) : Option Nat :=
  if 10 * n ≤ largest ∧ 10 * n + (c.toNat - '0'.toNat) ≤ largest then
    some (10 * n + (c.toNat - '0'.toNat))
  else none

/-- Reading digits in a machine word, with a check at every digit. -/
def accumulate (digits : List Char) : Option Nat := digits.foldlM push 0

/-- A check at every digit comes to the same as one check at the end: once a number is too
large, no further digit makes it smaller. -/
theorem accumulate_eq (digits : List Char) :
    accumulate digits = if decimal digits ≤ largest then some (decimal digits) else none := by
  induction digits using List.reverseRecOn with
  | nil => rfl
  | append_singleton digits c ih =>
      rw [accumulate] at ih ⊢
      rw [List.foldlM_append, ih, decimal_append_singleton]
      by_cases hfits : decimal digits ≤ largest
      · rw [if_pos hfits]
        show push (decimal digits) c >>= pure = _
        rw [bind_pure, push]
        apply if_congr _ rfl rfl
        omega
      · rw [if_neg hfits, if_neg (by omega)]
        rfl

/-- So numerals may be read with a check at every digit. -/
theorem number?_eq_accumulate (text : List Char) :
    number? text =
      if digitsOf text ≠ [] ∧ (digitsOf text).all Char.isDigit = true then
        accumulate (digitsOf text)
      else none := by
  rw [number?, accumulate_eq]
  by_cases hdigits : digitsOf text ≠ [] ∧ (digitsOf text).all Char.isDigit = true
  · rw [if_pos hdigits]
    apply if_congr _ rfl rfl
    exact ⟨fun h => h.2.2, fun hfits => ⟨hdigits.1, hdigits.2, hfits⟩⟩
  · rw [if_neg hdigits]
    exact if_neg fun h => hdigits ⟨h.1, h.2.1⟩

/-! ## Values -/

/-- A value of the variable chooses a positive number that a machine word can hold. -/
def Chosen (value : Option String) (n : Nat) : Prop :=
  ∃ text core, value = some text ∧ Stripped text.toList core ∧ Numeral core n ∧ 1 ≤ n ∧ n < 2 ^ 64

theorem chosen_iff {value : Option String} {n : Nat} :
    Chosen value n ↔ (value.bind fun text => number? (trim text.toList)) = some n ∧ 1 ≤ n := by
  rw [Option.bind_eq_some_iff]
  constructor
  · rintro ⟨text, core, hvalue, hcore, hnumeral, hpos, hlt⟩
    refine ⟨⟨text, hvalue, ?_⟩, hpos⟩
    rw [trim_eq_iff.mpr hcore]
    exact number?_eq_some_iff.mpr ⟨hnumeral, Nat.le_of_lt_succ hlt⟩
  · rintro ⟨⟨text, hvalue, hnumber⟩, hpos⟩
    obtain ⟨hnumeral, hfits⟩ := number?_eq_some_iff.mp hnumber
    exact ⟨text, _, hvalue, trim_eq_iff.mp rfl, hnumeral, hpos, Nat.lt_succ_of_le hfits⟩

/-- The variable is the only one that counts. A value that is a numeral between whitespace
chooses the number if it is positive and a machine word can hold it; with every other value, and
without a value, the capacity is the standard one. So it is never zero. -/
theorem ofEnvironment_exact (lookup : String → Option String) :
    (∀ n, Chosen (lookup variableName) n → ofEnvironment lookup = n) ∧
      ((¬ ∃ n, Chosen (lookup variableName) n) → ofEnvironment lookup = 1024) ∧
      ofEnvironment lookup ≠ 0 := by
  simp only [chosen_iff, ofEnvironment, ofValue]
  generalize (lookup variableName).bind (fun text => number? (trim text.toList)) = read
  rcases read with _ | _ | n
  · simp [standard]
  · simp [standard]
  · simp

/-- Zeros in front make no number too large, and the next number after the largest is. -/
example :
    ofValue (some "\t+0000000000018446744073709551615 ") = 18446744073709551615 ∧
      ofValue (some "18446744073709551616") = 1024 := by
  decide +kernel

end ContextLexer.Capacity
