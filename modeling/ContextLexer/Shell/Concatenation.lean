/-
# Concatenation

Two fragments of one word that touch are joined by an empty token between them. A
command substitution in backquotes is joined only if the word ends after it, and a
backslash only if it escapes a quote or another backslash.
-/

import ContextLexer.CharClass
import ContextLexer.Shell.Resolver

namespace ContextLexer.Shell

/-- The quote around a command substitution. -/
def backquote : Char := '\x60'

/-- Whether a word ends in front of a character. -/
def endsFragment (accepted : Accepted) (c : Char) : Bool :=
  c = '\x00' || isSpace c || c ∈ ['>', '<', ')', '(', ';', '&', '|'] ||
    (c = '}' && .closingBrace ∈ accepted) || (c = ']' && .closingBracket ∈ accepted)

/-- Inside an expansion that a brace may close, whitespace is joined as well. -/
def concatenateSpace (accepted : Accepted) (c : Cursor) : Ruling :=
  if isSpace c.lookahead ∧ .closingBrace ∈ accepted ∧ .expansionWord ∉ accepted then
    .claim .concatenation c
  else .pass c

/-- The command substitution that begins at the cursor is joined if the word ends after
it. -/
def concatenateSubstitution (c : Cursor) : Ruling :=
  let closing := c.markEnd.consume.consumeWhile (· ≠ backquote)
  if closing.atEnd then .decline
  else
    let after := closing.consume
    .claimIf (isSpace after.lookahead || after.atEnd) .concatenation after

/-- The resolver for concatenations. -/
def resolveConcatenation (accepted : Accepted) (c : Cursor) : Ruling :=
  if endsFragment accepted c.lookahead then concatenateSpace accepted c
  else if c.sees backquote then concatenateSubstitution c
  else if c.sees '\\' then
    let after := c.markEnd.consume
    if after.lookahead ∈ ['\"', '\'', '\\'] then .claim .concatenation after
    else if after.atEnd then .decline
    else concatenateSpace accepted after
  else .claim .concatenation c

end ContextLexer.Shell
