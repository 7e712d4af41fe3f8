/-
# Quoted strings

A quoted string begins with a brace, a tag and a bar, and ends with a bar, the same
tag and a brace. The tag is a possibly empty run of lowercase letters and underscores,
so the end can be chosen to differ from everything inside.
-/

import ContextLexer.Automaton
import ContextLexer.CharClass
import ContextLexer.Cursor.Basic

namespace ContextLexer.Delimited

/-- The characters of tags. -/
def isTagLetter (c : Char) : Bool := isLowercase c || c = '_'

/-- Whether a tag, which may be empty, and the bar after it can begin with a character. -/
def beginsQuoted (c : Char) : Bool := isTagLetter c || c = '|'

/-- Consume a tag and the bar after it. Where no bar follows, only the characters of the
tag are consumed and no tag is found. -/
def readTag (c : Cursor) : Option (List Char) × Cursor :=
  let after := c.consumeWhile isTagLetter
  if after.sees '|' then
    (some (c.place.ahead.takeWhile isTagLetter), after.consume)
  else (none, after)

/-- Consume as much of a tag as comes next, and tell whether it came in full and the
closing brace is next. The brace is not consumed. -/
def meetTag (tag : List Char) (c : Cursor) : Bool × Cursor :=
  let (complete, after) := c.consumeWord tag
  (complete && after.sees '}', after)

/-- One turn of skipping the inside of a quoted string. A bar may be the beginning of the
end; what was consumed in the attempt to match it cannot contain another beginning. -/
def quotedTurn (tag : List Char) (c : Cursor) : Turn Cursor (Bool × Cursor) :=
  if c.sees '|' then
    match meetTag tag c.consume with
    | (true, after) => .done (true, after)
    | (false, after) => .again after
  else if c.atEnd then .done (false, c)
  else .again c.consume

theorem remaining_meetTag_le (tag : List Char) (c : Cursor) :
    (meetTag tag c).2.remaining ≤ c.remaining :=
  Cursor.remaining_consumeWord_le tag c

theorem quotedTurn_shrinks (tag : List Char) :
    Turn.Shrinks (quotedTurn tag) Cursor.remaining := by
  intro c later h
  unfold quotedTurn at h
  split at h
  · next hbar =>
    have hpos : 0 < c.remaining := Cursor.remaining_pos_of_lookahead (by simp_all [Cursor.sees])
    split at h
    · cases h
    · next after hmatch =>
      cases h
      have := remaining_meetTag_le tag c.consume
      rw [hmatch, Cursor.remaining_consume] at this
      simp only at this
      omega
  · split at h
    · cases h
    · next hend =>
      cases h
      have := Cursor.remaining_pos_of_not_atEnd (by simpa using hend)
      simp only [Cursor.remaining_consume]
      omega

/-- Skip a quoted string from its tag up to the closing brace, and tell whether there is
one. -/
def readQuoted (c : Cursor) : Bool × Cursor :=
  match readTag c with
  | (none, after) => (false, after)
  | (some tag, after) => Turn.run (quotedTurn tag) Cursor.remaining (quotedTurn_shrinks tag) after

theorem remaining_readTag_le (c : Cursor) : (readTag c).2.remaining ≤ c.remaining := by
  have := Cursor.remaining_consumeWhile_le isTagLetter c
  unfold readTag
  dsimp only
  split
  · simp only [Cursor.remaining_consume]
    omega
  · exact this

theorem remaining_readQuoted_le (c : Cursor) : (readQuoted c).2.remaining ≤ c.remaining := by
  have hread := remaining_readTag_le c
  unfold readQuoted
  split
  · next after h =>
    rw [h] at hread
    exact hread
  · next tag after h =>
    rw [h] at hread
    refine Nat.le_trans (Turn.run_le (fun result : Bool × Cursor => result.2.remaining) ?_ after) hread
    intro c result hturn
    unfold quotedTurn at hturn
    split at hturn
    · split at hturn
      · next closed hmatch =>
        cases hturn
        have := remaining_meetTag_le tag c.consume
        rw [hmatch, Cursor.remaining_consume] at this
        dsimp only at this ⊢
        omega
      · cases hturn
    · split at hturn
      · cases hturn
        exact Nat.le_refl _
      · cases hturn

end ContextLexer.Delimited
