/-
# Tokens

A token is a kind together with the stretch of text that it covers. A call of a
scanner that claims a token leaves the host at the token's end; a call that declines
leaves it where the call began.
-/

import ContextLexer.Cursor.Basic

namespace ContextLexer

/-- A kind of token found between two places of a text. -/
structure Token (κ : Type) where
  /-- What was found. -/
  kind : κ
  /-- Where the token starts. -/
  start : Place
  /-- Where the token ends. -/
  stop : Place
  deriving DecidableEq, Repr

namespace Token

variable {κ : Type}

/-- The characters of the token. -/
def text (token : Token κ) : List Char := token.start.since token.stop

/-- The number of bytes of the token. -/
def size (token : Token κ) : Nat := token.stop.offset - token.start.offset

/-- Whether the token covers no character. -/
def isEmpty (token : Token κ) : Bool := token.start = token.stop

end Token

/-- What a scanner claims in a call: a kind, with the boundaries that its cursor has
set. Nothing is claimed by a call that declines. -/
abbrev Claim (κ : Type) := Option (κ × Cursor)

/-- The token that a cursor has delimited. -/
def Cursor.token {κ : Type} (c : Cursor) (kind : κ) : Token κ := ⟨kind, c.tokenStart, c.stop⟩

/-- The token of a call that began at a place, and the place where the host goes on. -/
def settle {κ : Type} (origin : Place) : Claim κ → Option (Token κ) × Place
  | some (kind, c) => (some (c.token kind), c.stop)
  | none => (none, origin)

end ContextLexer
