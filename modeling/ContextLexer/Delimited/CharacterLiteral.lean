/-
# Character literals

Comments may contain character literals, and a quote or a star inside one means
nothing to the comment. Whether a single quote begins a literal shows only later: if
no closing quote comes, the character read last is still undecided and goes back to
the caller, who acts on it as if it had not been read.
-/

import ContextLexer.CharClass
import ContextLexer.Cursor.Basic

namespace ContextLexer.Delimited

/-- The end of a literal: a closing quote settles it, and otherwise the character read
last is undecided. -/
def closeLiteral (last : Option Char) (c : Cursor) : Option Char × Cursor :=
  if c.sees '\'' then (none, c.consume) else (last, c)

/-- A literal that gives the code of its character by a number of digits. -/
def codeLiteral (digit : Char → Bool) (count : Nat) (c : Cursor) : Option Char × Cursor :=
  match c.consumeCount digit count with
  | (true, after) => closeLiteral none after
  | (false, after) => (none, after)

/-- The characters that a backslash can escape, other than those that begin a code. -/
def escapable : List Char := ['\'', '\"', '\\', 'n', 't', 'b', 'r', ' ']

/-- A literal whose backslash has been read. -/
def escapeLiteral (c : Cursor) : Option Char × Cursor :=
  let x := c.lookahead
  if x.isDigit then codeLiteral Char.isDigit 2 c.consume
  else if x = 'x' then codeLiteral isHexDigit 2 c.consume
  else if x = 'o' then codeLiteral isOctalDigit 3 c.consume
  else if x ∈ escapable then closeLiteral (some x) c.consume
  else (none, c)

/-- A literal whose opening quote has been read: the undecided character, if one is left
over, and how far the literal was read. -/
def characterLiteral (c : Cursor) : Option Char × Cursor :=
  let x := c.lookahead
  if x = '\\' then escapeLiteral c.consume
  else if x = '\'' then closeLiteral none c
  else if c.atEnd then (none, c)
  else if x = '\x00' then closeLiteral none c.consume
  else closeLiteral (some x) c.consume

/-- The room that an undecided character takes, in a measure of what is left to do. -/
def pendingSize (pending : Option Char) : Nat := if pending.isSome then 1 else 0

theorem closeLiteral_size_le (last : Option Char) (c : Cursor) :
    2 * (closeLiteral last c).2.remaining + pendingSize (closeLiteral last c).1 ≤
      2 * c.remaining + pendingSize last := by
  unfold closeLiteral
  split
  · simp [pendingSize]; omega
  · simp

theorem codeLiteral_size_le (digit : Char → Bool) (count : Nat) (c : Cursor) :
    2 * (codeLiteral digit count c).2.remaining + pendingSize (codeLiteral digit count c).1 ≤
      2 * c.remaining := by
  have hcount := Cursor.remaining_consumeCount_le digit count c
  unfold codeLiteral
  split
  · next after h =>
    have hclose := closeLiteral_size_le none after
    rw [h] at hcount
    simp only [pendingSize, Option.isSome_none, Bool.false_eq_true, if_false] at hclose hcount ⊢
    omega
  · next after h =>
    rw [h] at hcount
    simp only [pendingSize, Option.isSome_none, Bool.false_eq_true, if_false] at hcount ⊢
    omega

theorem escapeLiteral_size_le (c : Cursor) :
    2 * (escapeLiteral c).2.remaining + pendingSize (escapeLiteral c).1 ≤
      2 * c.remaining + 1 := by
  have hless : 2 * c.consume.remaining ≤ 2 * c.remaining := by
    rw [Cursor.remaining_consume]; omega
  unfold escapeLiteral
  dsimp only
  split
  · have hcode := codeLiteral_size_le Char.isDigit 2 c.consume
    omega
  split
  · have hcode := codeLiteral_size_le isHexDigit 2 c.consume
    omega
  split
  · have hcode := codeLiteral_size_le isOctalDigit 3 c.consume
    omega
  split
  · have hclose := closeLiteral_size_le (some c.lookahead) c.consume
    have hsome : pendingSize (some c.lookahead) = 1 := rfl
    omega
  · simp [pendingSize]

/-- Reading a literal costs at least as much as the undecided character gives back. -/
theorem characterLiteral_size_le (c : Cursor) :
    2 * (characterLiteral c).2.remaining + pendingSize (characterLiteral c).1 ≤
      2 * c.remaining := by
  have hnone : pendingSize none = 0 := rfl
  have hsome (x : Char) : pendingSize (some x) = 1 := rfl
  unfold characterLiteral
  dsimp only
  split
  · next hslash =>
    have hpos := Cursor.remaining_pos_of_lookahead (c := c) (by simp [hslash])
    have hescape := escapeLiteral_size_le c.consume
    rw [Cursor.remaining_consume] at hescape
    omega
  split
  · have hclose := closeLiteral_size_le none c
    omega
  split
  · simp [hnone]
  · next hend =>
    have hpos := Cursor.remaining_pos_of_not_atEnd (c := c) (by simpa using hend)
    split
    · have hclose := closeLiteral_size_le none c.consume
      rw [Cursor.remaining_consume] at hclose
      omega
    · have hclose := closeLiteral_size_le (some c.lookahead) c.consume
      rw [Cursor.remaining_consume, hsome] at hclose
      omega

end ContextLexer.Delimited
