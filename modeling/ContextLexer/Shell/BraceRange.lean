/-
# Brace ranges

A range such as one from one to ten is written in braces with two periods between its
bounds. Only its opening brace is claimed, once the whole range has been seen; either
bound may be missing.
-/

import ContextLexer.CharClass
import ContextLexer.Shell.Resolver

namespace ContextLexer.Shell

/-- The resolver for brace ranges. -/
def resolveBraceRange (c : Cursor) : Ruling :=
  let c := c.ignoreWhile isSpace
  if !c.sees '{' then .decline
  else
    match (c.consume.markEnd.consumeWhile Char.isDigit).consumeWord ['.', '.'] with
    | (true, after) =>
      let last := after.consumeWhile Char.isDigit
      .claimIf (last.sees '}') .braceStart last
    | (false, _) => .decline

end ContextLexer.Shell
