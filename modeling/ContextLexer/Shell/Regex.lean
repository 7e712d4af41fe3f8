/-
# Regexes

The right-hand side of a match and the pattern of a replacement are regexes without
delimiters of their own. Where such a regex ends depends on what surrounds it: a brace
that was never opened in it, a slash, or whitespace. The kinds that the host accepts
tell which. In all three styles a closer whose group was not opened in the regex ends it.
-/

import ContextLexer.Automaton
import ContextLexer.CharClass
import ContextLexer.Shell.Groups
import ContextLexer.Shell.Resolver

namespace ContextLexer.Shell

/-- What ends a regex, besides a closer that was never opened. -/
inductive RegexStyle
  /-- Nothing else: the regex runs to the end of an expansion. -/
  | braced
  /-- A slash. -/
  | slashed
  /-- Whitespace outside parentheses. -/
  | spaced
  deriving DecidableEq, Repr

/-- The style in which a regex is read. -/
def regexStyle (accepted : Accepted) : RegexStyle :=
  if .regex ∈ accepted then .braced
  else if .regexNoSlash ∈ accepted then .slashed
  else .spaced

/-- The kind of a regex that an unopened closer ends. -/
def regexKind (accepted : Accepted) : Kind :=
  if .regexNoSlash ∈ accepted then .regexNoSlash
  else if .regexNoSpace ∈ accepted then .regexNoSpace
  else .regex

/-- A regex being read. -/
structure Regex where
  /-- Where reading goes on. -/
  cursor : Cursor
  /-- The groups open there. -/
  groups : Groups
  /-- Whether a character has been read; escapes do not count. -/
  advanced : Bool
  /-- Whether anything was read that a plain word could not contain. -/
  significant : Bool
  deriving DecidableEq, Repr

/-- A turn in a regex that only an unopened closer ends. Whitespace at the end of the
regex is not part of the token, unless it stands in parentheses. -/
def bracedTurn (now : Regex) : Turn Regex (Claim Kind) :=
  let after := now.cursor.consume
  let kept := !isSpace now.cursor.lookahead || 0 < now.groups.parens
  .again { now with cursor := if kept then after.markEnd else after, advanced := true }

/-- A turn in a regex that a slash ends. A backslash takes the next character along,
except for an opening bracket or a slash. -/
def slashedTurn (now : Regex) : Turn Regex (Claim Kind) :=
  let c := now.cursor
  if c.sees '/' then
    .done (if now.advanced then some (.regexNoSlash, c.markEnd) else none)
  else if c.sees '\\' then
    let after := c.consume
    if after.atEnd || after.sees '[' || after.sees '/' then .again { now with cursor := after }
    else .again { now with cursor := after.consume.markEnd }
  else
    .again { now with
      cursor := if isSpace c.lookahead then c.consume else c.consume.markEnd
      advanced := true }

/-- Whether a plain word can contain a character. -/
def isPlain (c : Char) : Bool := isAlphanumeric c || c = '$' || c = '-' || c = '_'

/-- A turn in a regex that whitespace ends. A dollar sign in front of whitespace is an
anchor and ends the regex too; other regexes need a significant character. -/
def spacedTurn (now : Regex) : Turn Regex (Claim Kind) :=
  let c := now.cursor
  if c.sees '\\' then
    .again { now with cursor := c.consume.consume, significant := true }
  else if c.sees '$' then
    let after := c.markEnd.consume
    if after.sees '(' then .done none
    else if isSpace after.lookahead then .done (some (.regexNoSpace, after.markEnd))
    else .again { now with cursor := after }
  else if isSpace c.lookahead ∧ now.groups.parens = 0 then
    .done (if now.significant then some (.regexNoSpace, c.markEnd) else none)
  else
    .again { now with
      cursor := c.consume
      significant := now.significant || !isPlain c.lookahead }

/-- One turn of reading a regex. -/
def regexTurn (style : RegexStyle) (kind : Kind) (now : Regex) : Turn Regex (Claim Kind) :=
  if now.cursor.sees '\x00' then .done none
  else
    match now.groups.count now.cursor.lookahead with
    | none =>
      .done (if style = .braced ∧ !now.advanced then none else some (kind, now.cursor))
    | some groups =>
      match style with
      | .braced => bracedTurn { now with groups }
      | .slashed => slashedTurn { now with groups }
      | .spaced => spacedTurn { now with groups }

/-! ## Progress -/

theorem bracedTurn_lt {now later : Regex} (hpos : 0 < now.cursor.remaining)
    (h : bracedTurn now = .again later) : later.cursor.remaining < now.cursor.remaining := by
  unfold bracedTurn at h
  dsimp only at h
  cases h
  dsimp only
  split <;> simp only [Cursor.remaining_consume, Cursor.remaining_markEnd] <;> omega

theorem slashedTurn_lt {now later : Regex} (hpos : 0 < now.cursor.remaining)
    (h : slashedTurn now = .again later) : later.cursor.remaining < now.cursor.remaining := by
  unfold slashedTurn at h
  dsimp only at h
  split at h
  · cases h
  split at h
  · split at h <;> cases h <;>
      simp only [Cursor.remaining_consume, Cursor.remaining_markEnd] <;> omega
  · cases h
    dsimp only
    split <;> simp only [Cursor.remaining_consume, Cursor.remaining_markEnd] <;> omega

theorem spacedTurn_lt {now later : Regex} (hpos : 0 < now.cursor.remaining)
    (h : spacedTurn now = .again later) : later.cursor.remaining < now.cursor.remaining := by
  unfold spacedTurn at h
  dsimp only at h
  split at h
  · cases h
    simp only [Cursor.remaining_consume]
    omega
  split at h
  · split at h
    · cases h
    split at h
    · cases h
    · cases h
      simp only [Cursor.remaining_consume, Cursor.remaining_markEnd]
      omega
  split at h
  · cases h
  · cases h
    simp only [Cursor.remaining_consume]
    omega

theorem regexTurn_shrinks (style : RegexStyle) (kind : Kind) :
    Turn.Shrinks (regexTurn style kind) (fun now => now.cursor.remaining) := by
  intro now later h
  unfold regexTurn at h
  split at h
  · cases h
  · next hnul =>
    have hpos := Cursor.remaining_pos_of_lookahead (c := now.cursor)
      (by simpa [Cursor.sees] using hnul)
    split at h
    · cases h
    · split at h
      · have hlt := bracedTurn_lt (by exact hpos) h
        exact hlt
      · have hlt := slashedTurn_lt (by exact hpos) h
        exact hlt
      · have hlt := spacedTurn_lt (by exact hpos) h
        exact hlt

/-- Read a regex from where it begins. -/
def readRegex (accepted : Accepted) (c : Cursor) : Claim Kind :=
  Turn.run (regexTurn (regexStyle accepted) (regexKind accepted))
    (fun now => now.cursor.remaining) (regexTurn_shrinks _ _)
    ⟨c.markEnd, Groups.ofParens 0, false, false⟩

/-- The resolver for regexes. A quoted string is none, and an expansion at the beginning
of a regex that a slash ends is left to the host. -/
def resolveRegex (accepted : Accepted) (c : Cursor) : Ruling :=
  let c := if .regex ∈ accepted ∨ .regexNoSpace ∈ accepted then c.ignoreWhile isSpace else c
  if c.sees '\"' || c.sees '\'' then .pass c
  else if .regexNoSlash ∈ accepted ∧ c.sees '$' then
    let after := c.markEnd.consume
    if after.sees '(' then .decline else .ofClaim (readRegex accepted after)
  else .ofClaim (readRegex accepted c)

end ContextLexer.Shell
