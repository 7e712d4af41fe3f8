/-
# Layout tokens

The tokens by which an indented layout says what other languages say with braces and
semicolons. All of them are empty: they stand in front of the text that they announce.
-/

import ContextLexer.Vocabulary

namespace ContextLexer.Offside

/-- The kinds of layout tokens. -/
inductive Kind
  /-- A logical line ends at the level of the current block. -/
  | newline
  /-- A line deeper than the current block opens a new one. -/
  | indent
  /-- A block closes. -/
  | dedent
  deriving DecidableEq, Repr

instance : Vocabulary Kind where
  all := [.newline, .indent, .dedent]
  name
    | .newline => "Newline"
    | .indent => "Indent"
    | .dedent => "Dedent"
  nodup_all := by decide
  mem_all kind := by cases kind <;> decide

end ContextLexer.Offside
