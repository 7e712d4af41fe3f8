/-
# Character classes

The classes of code points that the scanners ask about. The classes for space,
letter, alphanumeric and lowercase characters follow Unicode and so accept every
script; the ASCII classes are for places where only ASCII shapes count, such as
operator names, digit runs and escapes. NUL is in no class, so a loop that
advances while a class holds always stops at the end of the input, which reads
as NUL.
-/

import ContextLexer.Unicode.WhiteSpace
import ContextLexer.Unicode.Alphabetic
import ContextLexer.Unicode.Numeric
import ContextLexer.Unicode.Lowercase

namespace ContextLexer

/-- Whitespace of any script, line breaks included. -/
def isSpace (c : Char) : Bool := Unicode.whiteSpace.contains c.toNat

/-- Whitespace within a line of source: a space or a tab. -/
def isBlank (c : Char) : Bool := c = ' ' || c = '\t'

/-- A letter of any script. -/
def isLetter (c : Char) : Bool := Unicode.alphabetic.contains c.toNat

/-- A letter or number of any script. -/
def isAlphanumeric (c : Char) : Bool := isLetter c || Unicode.numeric.contains c.toNat

/-- A lowercase letter of any script. -/
def isLowercase (c : Char) : Bool := Unicode.lowercase.contains c.toNat

/-- An ASCII hexadecimal digit of either case. -/
def isHexDigit (c : Char) : Bool :=
  c.isDigit || ('a' ≤ c && c ≤ 'f') || ('A' ≤ c && c ≤ 'F')

/-- An ASCII digit below eight. -/
def isOctalDigit (c : Char) : Bool := '0' ≤ c && c ≤ '7'

/-- A character that passes a test differs from all that do not. -/
theorem ne_of_test {test : Char → Bool} {c x : Char} (hx : test x = false) (hc : test c = true) :
    c ≠ x := by
  rintro rfl
  exact Bool.false_ne_true (hx.symm.trans hc)

/-- The classes by name, for callers that choose one at run time. -/
inductive CharClass
  | space | blank | letter | alphanumeric | lowercase
  | asciiLetter | asciiDigit | asciiAlphanumeric | hexDigit | octalDigit
  deriving DecidableEq, Repr

namespace CharClass

/-- Every class, the Unicode family before the ASCII one. -/
def all : List CharClass :=
  [space, blank, letter, alphanumeric, lowercase,
   asciiLetter, asciiDigit, asciiAlphanumeric, hexDigit, octalDigit]

/-- Whether a character belongs to the class. -/
def test : CharClass → Char → Bool
  | space => isSpace
  | blank => isBlank
  | letter => isLetter
  | alphanumeric => isAlphanumeric
  | lowercase => isLowercase
  | asciiLetter => Char.isAlpha
  | asciiDigit => Char.isDigit
  | asciiAlphanumeric => Char.isAlphanum
  | hexDigit => isHexDigit
  | octalDigit => isOctalDigit

/-- The NUL that stands for the end of the input is in no class. -/
theorem test_nul (cls : CharClass) : cls.test '\x00' = false := by
  cases cls <;> decide

/-- Whether a code point is a character of the class; surrogates are none. -/
def testCode (cls : CharClass) (n : Nat) : Bool :=
  if h : n.isValidChar then cls.test (Char.ofNatAux n h) else false

/-- Extend the runs found so far, latest first, by a code point of the class. -/
def extendRuns (n : Nat) : List (Nat × Nat) → List (Nat × Nat)
  | (first, last) :: earlier =>
    if last + 1 = n then (first, n) :: earlier else (n, n) :: (first, last) :: earlier
  | [] => [(n, n)]

/-- The maximal runs of code points of the class between two bounds, both included. -/
def runs (cls : CharClass) (first last : Nat) : List (Nat × Nat) :=
  ((List.range' first (last + 1 - first)).foldl
    (fun found n => if cls.testCode n then extendRuns n found else found) []).reverse

end CharClass

end ContextLexer
