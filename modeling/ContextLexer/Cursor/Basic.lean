/-
# Cursors

During a call a scanner moves a cursor over the text. The cursor carries the
boundaries of the token being built. The token starts where the call began, or
after the last character that was ignored. It ends at the last mark, or where the
cursor stands if nothing was marked; what lies beyond a mark was only looked at.

Every move does nothing at the end of the text.
-/

import ContextLexer.Cursor.Place

namespace ContextLexer

/-- A moving place together with the boundaries of the token being built. -/
structure Cursor where
  /-- Where the cursor stands. -/
  place : Place
  /-- Where the token starts, unless its end comes to lie before. -/
  start : Place
  /-- Where the token ends, once this has been decided. -/
  mark : Option Place
  deriving DecidableEq, Repr, Inhabited

namespace Cursor

/-- The cursor at the beginning of a call. -/
def begin (p : Place) : Cursor := ⟨p, p, none⟩

/-! ## Looking -/

/-- The next character; NUL stands for the end of the text. -/
def lookahead (c : Cursor) : Char := c.place.lookahead

/-- Whether nothing follows the cursor. An embedded NUL reads like the end, and only
this question tells the two apart. -/
def atEnd (c : Cursor) : Bool := c.place.atEnd

/-- The number of characters between the last line feed and the cursor. -/
def column (c : Cursor) : Nat := c.place.column

/-- The number of characters after the cursor. -/
def remaining (c : Cursor) : Nat := c.place.remaining

/-- Whether the next character is a given one. -/
def sees (c : Cursor) (x : Char) : Bool := c.lookahead = x

/-! ## Moving -/

/-- Step over a character that belongs to the token. -/
def consume (c : Cursor) : Cursor := { c with place := c.place.next }

/-- Step over a character that does not belong to the token: the token starts after it. -/
def ignore (c : Cursor) : Cursor :=
  if c.atEnd then c else { c with place := c.place.next, start := c.place.next }

/-- Decide that the token ends here. -/
def markEnd (c : Cursor) : Cursor := { c with mark := some c.place }

/-- Consume characters as long as they satisfy a test. -/
def consumeWhile (test : Char → Bool) (c : Cursor) : Cursor :=
  { c with place := c.place.skipWhile test }

/-- Ignore characters as long as they satisfy a test. -/
def ignoreWhile (test : Char → Bool) (c : Cursor) : Cursor :=
  if test c.lookahead && !c.atEnd then
    { c with place := c.place.skipWhile test, start := c.place.skipWhile test }
  else c

/-- Consume the longest part of a word that comes next, and tell whether all of it came. -/
def consumeWord : List Char → Cursor → Bool × Cursor
  | [], c => (true, c)
  | x :: word, c => if c.lookahead = x then consumeWord word c.consume else (false, c)

/-- Consume a fixed number of characters of a class, and tell whether there were so many.
The cursor stops in front of the first character outside the class. -/
def consumeCount (test : Char → Bool) : Nat → Cursor → Bool × Cursor
  | 0, c => (true, c)
  | n + 1, c => if test c.lookahead then consumeCount test n c.consume else (false, c)

/-! ## The token -/

/-- Where the token ends. -/
def stop (c : Cursor) : Place := c.mark.getD c.place

/-- Where the token starts. An end before the start makes an empty token at the end. -/
def tokenStart (c : Cursor) : Place :=
  if c.stop.index < c.start.index then c.stop else c.start

/-! ## Progress

A move never goes back, and every step over a character that is there goes forward.
-/

@[simp] theorem remaining_consume (c : Cursor) : c.consume.remaining = c.remaining - 1 :=
  c.place.remaining_next

@[simp] theorem remaining_ignore (c : Cursor) : c.ignore.remaining = c.remaining - 1 := by
  unfold ignore
  split
  · next h =>
    have : c.place.remaining = 0 := by
      simpa [atEnd, Place.atEnd, Place.remaining] using h
    simp [remaining, this]
  · exact c.place.remaining_next

@[simp] theorem remaining_markEnd (c : Cursor) : c.markEnd.remaining = c.remaining := rfl

@[simp] theorem lookahead_markEnd (c : Cursor) : c.markEnd.lookahead = c.lookahead := rfl

@[simp] theorem atEnd_markEnd (c : Cursor) : c.markEnd.atEnd = c.atEnd := rfl

theorem remaining_consumeWhile_le (test : Char → Bool) (c : Cursor) :
    (c.consumeWhile test).remaining ≤ c.remaining :=
  c.place.remaining_skipWhile_le test

theorem remaining_ignoreWhile_le (test : Char → Bool) (c : Cursor) :
    (c.ignoreWhile test).remaining ≤ c.remaining := by
  unfold ignoreWhile
  split
  · exact c.place.remaining_skipWhile_le test
  · exact Nat.le_refl _

theorem remaining_consumeWord_le (word : List Char) (c : Cursor) :
    (consumeWord word c).2.remaining ≤ c.remaining := by
  induction word generalizing c with
  | nil => exact Nat.le_refl _
  | cons x word ih =>
    unfold consumeWord
    split
    · exact Nat.le_trans (ih _) (by simp)
    · exact Nat.le_refl _

theorem remaining_consumeCount_le (test : Char → Bool) (n : Nat) (c : Cursor) :
    (consumeCount test n c).2.remaining ≤ c.remaining := by
  induction n generalizing c with
  | zero => exact Nat.le_refl _
  | succ n ih =>
    unfold consumeCount
    split
    · exact Nat.le_trans (ih _) (by simp)
    · exact Nat.le_refl _

theorem remaining_pos_of_not_atEnd {c : Cursor} (h : c.atEnd = false) : 0 < c.remaining :=
  c.place.remaining_pos h

theorem remaining_pos_of_lookahead {c : Cursor} (h : c.lookahead ≠ '\x00') :
    0 < c.remaining :=
  c.place.remaining_pos (Place.atEnd_of_lookahead h)

end Cursor

end ContextLexer
