/-
# Tokens of delimited literals

The tokens that a grammar of regular tokens cannot delimit: comments that nest, quoted
strings whose closing tag repeats the opening one, and the quotes of strings whose
inside is scanned by the host.
-/

import ContextLexer.Vocabulary

namespace ContextLexer.Delimited

/-- The kinds of tokens around delimited literals. -/
inductive Kind
  /-- A whole comment, with the comments inside it. -/
  | comment
  /-- The tag of a quoted string and the bar after it. -/
  | quotedOpening
  /-- The bar and the tag at the end of a quoted string. -/
  | quotedClosing
  /-- A double quote that begins or ends an ordinary string. -/
  | stringQuote
  /-- A line that tells the line number and file of what follows. -/
  | lineDirective
  /-- A NUL in the text. -/
  | nul
  deriving DecidableEq, Repr

instance : Vocabulary Kind where
  all := [.comment, .quotedOpening, .quotedClosing, .stringQuote, .lineDirective, .nul]
  name
    | .comment => "Comment"
    | .quotedOpening => "LeftQuotedStringDelim"
    | .quotedClosing => "RightQuotedStringDelim"
    | .stringQuote => "StringDelim"
    | .lineDirective => "LineNumberDirective"
    | .nul => "NullCharacter"
  nodup_all := by decide
  mem_all kind := by cases kind <;> decide

end ContextLexer.Delimited
