/-
# Calls given by their moves

The boundaries of a token depend only on the moves that a call makes. Moves are kept
as data here, so that any sequence of them can be played from any place.
-/

import ContextLexer.CharClass
import ContextLexer.Token

namespace ContextLexer

/-- One move of a cursor. -/
inductive Move
  | consume
  | ignore
  | markEnd
  | consumeWhile (cls : CharClass)
  | ignoreWhile (cls : CharClass)
  deriving DecidableEq, Repr

namespace Move

/-- Make the move. -/
def apply : Move → Cursor → Cursor
  | consume, c => c.consume
  | ignore, c => c.ignore
  | markEnd, c => c.markEnd
  | consumeWhile cls, c => c.consumeWhile cls.test
  | ignoreWhile cls, c => c.ignoreWhile cls.test

/-- Make moves one after the other. -/
def applyAll (moves : List Move) (c : Cursor) : Cursor :=
  moves.foldl (fun c move => move.apply c) c

/-- The call that makes the given moves from a place and then claims a token of the
given kind, or declines if there is none. -/
def call {κ : Type} (moves : List Move) (kind : Option κ) (origin : Place) :
    Option (Token κ) × Place :=
  settle origin (kind.map fun kind => (kind, applyAll moves (Cursor.begin origin)))

end Move

end ContextLexer
