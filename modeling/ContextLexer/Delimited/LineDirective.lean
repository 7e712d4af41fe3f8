/-
# Line directives

A line directive consists of a hash sign at the beginning of a line, a line number, a
file name in double quotes, and whatever else stands on the line.
-/

import ContextLexer.CharClass
import ContextLexer.Cursor.Basic

namespace ContextLexer.Delimited

/-- Whether a character ends a line. -/
def isLineEnd (c : Char) : Bool := c = '\n' || c = '\r'

/-- Consume a line directive from its hash sign to the end of the line. -/
def lineDirective? (c : Cursor) : Option Cursor :=
  let number := c.consume.consumeWhile isBlank
  if !number.lookahead.isDigit then none
  else
    let name := (number.consumeWhile Char.isDigit).consumeWhile isBlank
    if !name.sees '\"' then none
    else
      let closing := name.consume.consumeWhile fun x => !isLineEnd x && x ≠ '\"'
      if !closing.sees '\"' then none
      else some (closing.consume.consumeWhile (!isLineEnd ·))

end ContextLexer.Delimited
