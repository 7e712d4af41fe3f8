/-
# The capacity of snapshots

Hosts keep snapshots in buffers of a fixed size. The size can be chosen through an
environment variable; a value that is not a positive number of machine size is
ignored in favour of the standard size.
-/

import ContextLexer.CharClass

namespace ContextLexer.Capacity

/-- The size of a snapshot buffer where none is chosen. -/
def standard : Nat := 1024

/-- The environment variable that chooses another size. -/
def variableName : String := "SCAN_STATE_CAPACITY"

/-- The largest number of a machine word. -/
def largest : Nat := 18446744073709551615

/-- A text without the whitespace at its two ends. -/
def trim (text : List Char) : List Char :=
  (((text.dropWhile isSpace).reverse).dropWhile isSpace).reverse

/-- The number written by decimal digits, most significant first. -/
def decimal (digits : List Char) : Nat :=
  digits.foldl (fun n digit => 10 * n + (digit.toNat - '0'.toNat)) 0

/-- The digits of a numeral, which may have a plus sign in front. -/
def digitsOf : List Char → List Char
  | '+' :: digits => digits
  | digits => digits

/-- The number that a text writes in decimal digits, if it fits into a machine word. -/
def number? (text : List Char) : Option Nat :=
  let digits := digitsOf text
  if digits ≠ [] ∧ digits.all Char.isDigit ∧ decimal digits ≤ largest then
    some (decimal digits)
  else none

/-- The capacity that a value of the variable chooses. -/
def ofValue (value : Option String) : Nat :=
  match value.bind fun text => number? (trim text.toList) with
  | some (n + 1) => n + 1
  | _ => standard

/-- The capacity that an environment chooses. -/
def ofEnvironment (lookup : String → Option String) : Nat := ofValue (lookup variableName)

end ContextLexer.Capacity
