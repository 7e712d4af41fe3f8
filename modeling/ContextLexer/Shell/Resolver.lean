/-
# Resolvers and their rulings

A call of the shell scanner asks a number of resolvers in a fixed order. Each of them
knows one construct. It may claim a token, decide that there is none, leave the input
to the resolvers after it, or hand it over to a certain one of them. What it has
consumed before it leaves the input stays consumed.
-/

import ContextLexer.Acceptance
import ContextLexer.Shell.Kind
import ContextLexer.Token

namespace ContextLexer.Shell

/-- The token kinds that the host accepts. -/
abbrev Accepted := Acceptance Kind

/-- The resolvers, each named for its construct. -/
inductive Resolver
  | concatenation
  | doubleHash
  | expansionSymbol
  | emptyValue
  | heredocBody
  | heredocEnd
  | heredocContent
  | heredocStart
  | testOperator
  | name
  | bareDollar
  | regex
  | extendedGlob
  | expansionWord
  | braceRange
  deriving DecidableEq, Repr

/-- The order in which the resolvers are asked. -/
def Resolver.order : List Resolver :=
  [.concatenation, .doubleHash, .expansionSymbol, .emptyValue, .heredocBody, .heredocEnd,
   .heredocContent, .heredocStart, .testOperator, .name, .bareDollar, .regex,
   .extendedGlob, .expansionWord, .braceRange]

/-- What a resolver makes of the input. -/
inductive Ruling
  /-- It claims a token, delimited by the cursor. -/
  | claim (kind : Kind) (c : Cursor)
  /-- It decides that there is no token. -/
  | decline
  /-- It leaves the input to the resolvers after it. -/
  | pass (c : Cursor)
  /-- It hands the input over to a later resolver. -/
  | handOver (target : Resolver) (c : Cursor)
  deriving DecidableEq, Repr

namespace Ruling

/-- Claim a token under a condition, and decline otherwise. -/
def claimIf (condition : Bool) (kind : Kind) (c : Cursor) : Ruling :=
  if condition then claim kind c else decline

/-- The ruling of a resolver that either claims a token or declines. -/
def ofClaim : Claim Kind → Ruling
  | some (kind, c) => claim kind c
  | none => decline

end Ruling

/-- Whether the host is recovering from a syntax error. Most resolvers stand back then. -/
def isRecovering (accepted : Accepted) : Prop := .errorRecovery ∈ accepted

instance (accepted : Accepted) : Decidable (isRecovering accepted) :=
  inferInstanceAs (Decidable (.errorRecovery ∈ accepted))

end ContextLexer.Shell
