/-
# Delimiter words

The word after a heredoc arrow, with one pair of quotes around it or backslashes in it
removed. A word that begins with a quote or a backslash makes the heredoc raw.
-/

import ContextLexer.Automaton
import ContextLexer.CharClass
import ContextLexer.Shell.Heredoc.Basic

namespace ContextLexer.Shell

/-- Whether a character is a quote that can surround a word. -/
def isQuote (c : Char) : Bool := c = '\'' || c = '\"'

/-- Whether a word ends at a character: at its closing quote or the end of the line if it
is quoted, and at whitespace if it is not. NUL ends every word. -/
def endsWord (quote : Option Char) (c : Char) : Bool :=
  c = '\x00' ||
    match quote with
    | some q => c = q || c = '\r' || c = '\n'
    | none => isSpace c

/-- A word being read: where, and the characters of the word so far, latest first. -/
structure PartialWord where
  /-- Where reading goes on. -/
  cursor : Cursor
  /-- The characters read so far without escapes, latest first. -/
  letters : List Char

/-- One turn of reading a word takes one character, which a backslash may escape. There
is no word if NUL follows a backslash. -/
def wordTurn (quote : Option Char) (now : PartialWord) :
    Turn PartialWord (Option PartialWord) :=
  let c := now.cursor
  if endsWord quote c.lookahead then .done (some now)
  else
    let shown := if c.sees '\\' then c.consume else c
    if shown.sees '\x00' then .done none
    else .again ⟨shown.consume, shown.lookahead :: now.letters⟩

theorem wordTurn_shrinks (quote : Option Char) :
    Turn.Shrinks (wordTurn quote) (fun now => now.cursor.remaining) := by
  intro now later h
  unfold wordTurn at h
  dsimp only at h
  split at h
  · cases h
  · next hends =>
    have hpos := Cursor.remaining_pos_of_lookahead (c := now.cursor) fun hnul => by
      simp [endsWord, hnul] at hends
    generalize hshown :
      (if now.cursor.sees '\\' then now.cursor.consume else now.cursor) = shown at h
    have hle : shown.remaining ≤ now.cursor.remaining := by
      subst hshown
      split <;> simp
    split at h
    · cases h
    · cases h
      simp only [Cursor.remaining_consume]
      omega

/-- Read a word, and return it without quotes and escapes. There is no empty word. -/
def readWord? (c : Cursor) : Option (List Char × Cursor) :=
  let quote := if isQuote c.lookahead then some c.lookahead else none
  let inside := if quote.isSome then c.consume else c
  match Turn.run (wordTurn quote) (fun now => now.cursor.remaining)
      (wordTurn_shrinks quote) ⟨inside, []⟩ with
  | none => none
  | some ⟨_, []⟩ => none
  | some ⟨after, letters⟩ =>
    some (letters.reverse, if quote = some after.lookahead then after.consume else after)

/-- Read the delimiter of a heredoc. The heredoc keeps whatever was found out about it,
also where no word could be read. -/
def readDelimiter (h : Heredoc) (c : Cursor) : Heredoc × Option Cursor :=
  let word := c.ignoreWhile isSpace
  let raw := isQuote word.lookahead || word.sees '\\'
  match readWord? word with
  | some (delimiter, after) => ({ h with raw, delimiter }, some after)
  | none => ({ h with raw, delimiter := [] }, none)

end ContextLexer.Shell
