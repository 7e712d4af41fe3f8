/-
# A grammar of comments

Comments nest, and contain literals in which openers and closers mean nothing. The
grammar gives the text from some point of a comment up to its closer, so that each
alternative can say what must not follow it: an identifier takes all the characters that
could belong to it, an opening parenthesis stands alone only if no star follows, and a
star only if no closing parenthesis does.
-/

import ContextLexer.Delimited.Comment

namespace ContextLexer.Delimited

/-- The text from a point of a string up to its closing quote. -/
inductive StringRest : List Char → Prop
  | close : StringRest ['\"']
  | escaped {x : Char} {rest : List Char} (hrest : StringRest rest) :
      StringRest ('\\' :: x :: rest)
  | plain {x : Char} {rest : List Char} (hquote : x ≠ '\"') (hslash : x ≠ '\\')
      (hrest : StringRest rest) : StringRest (x :: rest)

/-- The text between the quotes of a character literal. -/
inductive CharacterText : List Char → Prop
  | plain {x : Char} (hquote : x ≠ '\'') (hslash : x ≠ '\\') : CharacterText [x]
  | decimal {a b c : Char} (digits : ∀ d ∈ [a, b, c], d.isDigit = true) :
      CharacterText ['\\', a, b, c]
  | hex {a b : Char} (digits : ∀ d ∈ [a, b], isHexDigit d = true) :
      CharacterText ['\\', 'x', a, b]
  | octal {a b c : Char} (digits : ∀ d ∈ [a, b, c], isOctalDigit d = true) :
      CharacterText ['\\', 'o', a, b, c]
  | escape {x : Char} (hx : x ∈ ['\'', '\"', '\\', 'n', 't', 'b', 'r', ' ']) :
      CharacterText ['\\', x]

/-- Whether a text is an identifier. -/
inductive Identifier : List Char → Prop
  | mk {x : Char} {tail : List Char} (begins : beginsIdentifier x = true)
      (continues : ∀ c ∈ tail, continuesIdentifier c = true) : Identifier (x :: tail)

/-- Identifiers with dots between them. -/
inductive DottedName : List Char → Prop
  | last {name : List Char} (hname : Identifier name) : DottedName name
  | dot {name more : List Char} (hname : Identifier name) (hmore : DottedName more) :
      DottedName (name ++ '.' :: more)

/-- A quoted string without its braces: the text between its bars does not contain the
second bar with the tag and the brace behind it. -/
inductive QuotedText : List Char → Prop
  | mk {tag inside : List Char} (htag : ∀ c ∈ tag, isTagLetter c = true)
      (unclosed : ¬ '|' :: tag ++ ['}'] <:+: inside) :
      QuotedText (tag ++ '|' :: (inside ++ '|' :: tag))

/-- The text between the braces of a quoted string. The name of an extension may stand in
front, with whitespace behind it unless the tag is empty. -/
inductive BracedText : List Char → Prop
  | quoted {text : List Char} (htext : QuotedText text) : BracedText text
  | extension {signs name gap text : List Char} (hsigns : signs = ['%'] ∨ signs = ['%', '%'])
      (hname : DottedName name) (hgap : ∀ c ∈ gap, isSpace c = true)
      (apart : gap = [] → text.head? = some '|') (htext : QuotedText text) :
      BracedText (signs ++ (name ++ (gap ++ text)))

/-- The text from a point of a comment up to its closer. -/
inductive CommentRest : List Char → Prop
  | close : CommentRest ['*', ')']
  | comment {inside rest : List Char} (hinside : CommentRest inside)
      (hrest : CommentRest rest) : CommentRest ('(' :: '*' :: (inside ++ rest))
  | string {text rest : List Char} (htext : StringRest text) (hrest : CommentRest rest) :
      CommentRest ('\"' :: (text ++ rest))
  | character {text rest : List Char} (htext : CharacterText text)
      (hrest : CommentRest rest) : CommentRest ('\'' :: (text ++ '\'' :: rest))
  | quoted {text rest : List Char} (htext : BracedText text) (hrest : CommentRest rest) :
      CommentRest ('{' :: (text ++ '}' :: rest))
  | identifier {name rest : List Char} (hname : Identifier name)
      (ends : ∀ c ∈ rest.head?, continuesIdentifier c = false) (hrest : CommentRest rest) :
      CommentRest (name ++ rest)
  | parenthesis {rest : List Char} (alone : rest.head? ≠ some '*')
      (hrest : CommentRest rest) : CommentRest ('(' :: rest)
  | star {rest : List Char} (alone : rest.head? ≠ some ')') (hrest : CommentRest rest) :
      CommentRest ('*' :: rest)
  | plain {x : Char} {rest : List Char} (single : x ∉ ['(', '*', '\'', '\"', '{'])
      (hx : beginsIdentifier x = false) (hrest : CommentRest rest) : CommentRest (x :: rest)

/-- Whether a text is a comment. -/
inductive IsComment : List Char → Prop
  | mk {rest : List Char} (hrest : CommentRest rest) : IsComment ('(' :: '*' :: rest)

end ContextLexer.Delimited
