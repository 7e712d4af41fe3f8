/-
# Heredocs

A heredoc is opened by an arrow, named by a delimiter, and closed by a line that
begins with the delimiter. If the delimiter is written with a quote or a backslash in
front, the body is raw, which means that a dollar sign in it expands nothing.
-/

import ContextLexer.Cursor.Basic

namespace ContextLexer.Shell

/-- An open heredoc. -/
structure Heredoc where
  /-- Dollar signs in the body are plain text. -/
  raw : Bool
  /-- Text of the body has been returned, because an expansion followed it. -/
  started : Bool
  /-- The closing line may be indented. -/
  indented : Bool
  /-- The word that closes the heredoc; it is empty until it has been read. -/
  delimiter : List Char
  deriving DecidableEq, Repr

namespace Heredoc

/-- A heredoc whose arrow has been read. -/
def opened (indented : Bool) : Heredoc := ⟨false, false, indented, []⟩

/-- A heredoc of which everything has been forgotten. -/
def cleared : Heredoc := opened false

/-- Text of the body has now been returned. -/
def start (h : Heredoc) : Heredoc := { h with started := true }

end Heredoc

/-- Consume as much of a delimiter as comes next on the line, and tell whether all of it
came. An empty delimiter comes anywhere. -/
def meetDelimiter : List Char → Cursor → Bool × Cursor
  | [], c => (true, c)
  | x :: word, c =>
    if c.lookahead = '\x00' ∨ c.lookahead = '\n' ∨ c.lookahead ≠ x then (false, c)
    else meetDelimiter word c.consume

theorem remaining_meetDelimiter_le (word : List Char) (c : Cursor) :
    (meetDelimiter word c).2.remaining ≤ c.remaining := by
  induction word generalizing c with
  | nil => exact Nat.le_refl _
  | cons x word ih =>
    unfold meetDelimiter
    split
    · exact Nat.le_refl _
    · exact Nat.le_trans (ih _) (by simp)

end ContextLexer.Shell
