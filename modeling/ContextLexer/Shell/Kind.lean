/-
# Shell tokens

The tokens of a shell grammar whose extent depends on the context in which they stand.
Four kinds are never emitted: a host accepts them to say what surrounds the place, and
they only steer the scanner.
-/

import ContextLexer.Vocabulary

namespace ContextLexer.Shell

/-- The kinds of shell tokens. -/
inductive Kind
  /-- The delimiter word after a heredoc arrow. -/
  | heredocStart
  /-- A whole heredoc body without expansions. -/
  | heredocBody
  /-- The text of a heredoc body up to its first expansion. -/
  | heredocOpening
  /-- The text of a heredoc body between or after expansions. -/
  | heredocContent
  /-- The delimiter that closes a heredoc. -/
  | heredocEnd
  /-- The digits in front of a redirection. -/
  | fileDescriptor
  /-- The empty value of an assignment. -/
  | emptyValue
  /-- The empty token between two fragments of one word. -/
  | concatenation
  /-- The name of a variable that is assigned or expanded. -/
  | variableName
  /-- An operator of a test command. -/
  | testOperator
  /-- A regex up to the end of an expansion. -/
  | regex
  /-- A regex up to a slash. -/
  | regexNoSlash
  /-- A regex up to whitespace. -/
  | regexNoSpace
  /-- A word inside an expansion, up to its end or to another expansion. -/
  | expansionWord
  /-- An extended glob pattern. -/
  | extendedGlob
  /-- A dollar sign that expands nothing. -/
  | bareDollar
  /-- The brace that begins a range. -/
  | braceStart
  /-- The operator of two hash signs in an expansion. -/
  | doubleHash
  /-- A hash sign before the end of an expansion. -/
  | symbolHash
  /-- An exclamation mark before the end of an expansion. -/
  | symbolBang
  /-- An equals sign before the end of an expansion. -/
  | symbolEqual
  /-- Steers only: a closing brace may come. -/
  | closingBrace
  /-- Steers only: a closing bracket may come. -/
  | closingBracket
  /-- The arrow that opens a heredoc. -/
  | arrow
  /-- The arrow that opens a heredoc with indented lines. -/
  | arrowDash
  /-- Steers only: a line may end. -/
  | newline
  /-- Steers only: the host is recovering from a syntax error. -/
  | errorRecovery
  deriving DecidableEq, Repr

instance : Vocabulary Kind where
  all :=
    [.heredocStart, .heredocBody, .heredocOpening, .heredocContent, .heredocEnd,
     .fileDescriptor, .emptyValue, .concatenation, .variableName, .testOperator,
     .regex, .regexNoSlash, .regexNoSpace, .expansionWord, .extendedGlob, .bareDollar,
     .braceStart, .doubleHash, .symbolHash, .symbolBang, .symbolEqual, .closingBrace,
     .closingBracket, .arrow, .arrowDash, .newline, .errorRecovery]
  name
    | .heredocStart => "HeredocStart"
    | .heredocBody => "SimpleHeredocBody"
    | .heredocOpening => "HeredocBodyBeginning"
    | .heredocContent => "HeredocContent"
    | .heredocEnd => "HeredocEnd"
    | .fileDescriptor => "FileDescriptor"
    | .emptyValue => "EmptyValue"
    | .concatenation => "Concat"
    | .variableName => "VariableName"
    | .testOperator => "TestOperator"
    | .regex => "Regex"
    | .regexNoSlash => "RegexNoSlash"
    | .regexNoSpace => "RegexNoSpace"
    | .expansionWord => "ExpansionWord"
    | .extendedGlob => "ExtglobPattern"
    | .bareDollar => "BareDollar"
    | .braceStart => "BraceStart"
    | .doubleHash => "ImmediateDoubleHash"
    | .symbolHash => "ExternalExpansionSymHash"
    | .symbolBang => "ExternalExpansionSymBang"
    | .symbolEqual => "ExternalExpansionSymEqual"
    | .closingBrace => "ClosingBrace"
    | .closingBracket => "ClosingBracket"
    | .arrow => "HeredocArrow"
    | .arrowDash => "HeredocArrowDash"
    | .newline => "Newline"
    | .errorRecovery => "ErrorRecovery"
  nodup_all := by decide
  mem_all kind := by cases kind <;> decide

/-- Whether tokens of a kind exist, or the kind only steers the scanner. -/
def Kind.isEmittable : Kind → Bool
  | .closingBrace | .closingBracket | .newline | .errorRecovery => false
  | _ => true

end ContextLexer.Shell
