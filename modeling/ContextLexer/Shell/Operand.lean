/-
# Operands

The tokens at places where an operand is expected: the empty value of an assignment,
the operators of test commands, and dollar signs that expand nothing.
-/

import ContextLexer.CharClass
import ContextLexer.Shell.Resolver

namespace ContextLexer.Shell

/-- Whitespace other than a line feed. -/
def isSpaceInLine (c : Char) : Bool := isSpace c && c ≠ '\n'

/-- The resolver for empty values: nothing follows the equals sign of an assignment. -/
def resolveEmptyValue (c : Cursor) : Ruling :=
  if isSpace c.lookahead ∨ c.atEnd ∨ c.sees ';' ∨ c.sees '&' then .claim .emptyValue c
  else .pass c

/-! ## Dollar signs -/

/-- Look for a dollar sign, after whitespace, with nothing expandable behind it: the
word, the text or a string ends there. -/
def dollarAlone (c : Cursor) : Bool × Cursor :=
  let c := c.ignoreWhile isSpaceInLine
  if c.sees '$' then
    let after := c.consume.markEnd
    (isSpace after.lookahead || after.atEnd || after.sees '\"', after)
  else (false, c)

/-- The resolver for bare dollar signs. -/
def resolveBareDollar (c : Cursor) : Ruling :=
  match dollarAlone c with
  | (true, after) => .claim .bareDollar after
  | (false, after) => .pass after

/-! ## Test operators -/

/-- Where no operator was found there may still be a bare dollar sign. -/
def dollarOperand (accepted : Accepted) (c : Cursor) : Ruling :=
  if .bareDollar ∈ accepted ∧ ¬ isRecovering accepted then resolveBareDollar c else .pass c

/-- An operator in front of whitespace. If a closing brace that the host accepts comes
behind that, it is really the beginning of a word. -/
def spacedOperator (accepted : Accepted) (c : Cursor) : Ruling :=
  let space := c.markEnd.consume
  if space.sees '}' ∧ .closingBrace ∈ accepted then
    .claimIf (.expansionWord ∈ accepted) .expansionWord space.markEnd
  else .claim .testOperator space

/-- An operator consists of a dash and letters, and ends in front of whitespace. A dash
alone in front of whitespace can begin a glob. -/
def dashOperator (accepted : Accepted) (c : Cursor) : Ruling :=
  if c.sees '-' then
    let dash := c.consume
    let after := dash.consumeWhile Char.isAlpha
    if isSpace after.lookahead ∧ dash.lookahead.isAlpha then spacedOperator accepted after
    else if isSpace after.lookahead ∧ .extendedGlob ∈ accepted then
      .claim .extendedGlob after
    else dollarOperand accepted after
  else dollarOperand accepted c

/-- A line feed in front of an operator is ignored, unless a line may end here. -/
def operatorLine (accepted : Accepted) (c : Cursor) : Ruling :=
  if c.sees '\n' ∧ .newline ∉ accepted then
    dashOperator accepted (c.ignore.ignoreWhile isSpace)
  else dashOperator accepted c

/-- Ignore the rest of a line continuation, whose backslash has been read. -/
def continueLine? (c : Cursor) : Option Cursor :=
  if c.sees '\r' then
    let after := c.ignore
    some (if after.sees '\n' then after.ignore else after)
  else if c.sees '\n' then some c.ignore
  else none

/-- The resolver for test operators. A backslash can begin a glob or a regex where these
are accepted, and otherwise must continue the line. -/
def resolveTestOperator (accepted : Accepted) (c : Cursor) : Ruling :=
  let c := c.ignoreWhile isSpaceInLine
  if c.sees '\\' then
    if .extendedGlob ∈ accepted then .handOver .extendedGlob c
    else if .regexNoSpace ∈ accepted then .handOver .regex c
    else
      match continueLine? c.ignore with
      | some after => operatorLine accepted (after.ignoreWhile isSpace)
      | none => .decline
  else operatorLine accepted c

end ContextLexer.Shell
