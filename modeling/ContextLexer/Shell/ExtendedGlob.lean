/-
# Extended globs

An extended glob is a pattern with an operator in front of a group, such as the star in
front of parentheses. An expansion inside the group splits the pattern into several
tokens, so the depth of open parentheses is remembered from one token to the next.
-/

import ContextLexer.Automaton
import ContextLexer.CharClass
import ContextLexer.Shell.Groups
import ContextLexer.Shell.Resolver

namespace ContextLexer.Shell

/-- What reading a glob leads to: the depth to be remembered, and what is claimed. -/
abbrev GlobResult := UInt8 × Claim Kind

/-- Claim a glob and remember a depth. -/
def claimGlob (depth : UInt8) (c : Cursor) : GlobResult := (depth, some (.extendedGlob, c))

/-- The characters with which globs begin, or go on after an expansion. -/
def beginsGlob (c : Char) : Bool :=
  c ∈ ['?', '*', '+', '@', '!', '-', ')', '\\', '.']

/-- The characters that may follow the beginning of a glob. -/
def continuesGlob (c : Char) : Bool :=
  c.isAlphanum || c ∈ ['(', '\"', '[', '?', '/', '\\', '_']

/-- Whether a character after a dollar sign begins an expansion that splits a glob. -/
def splitsGlob (c : Char) : Bool := c = '{' || c = '('

/-! ## The group -/

/-- The group of a glob being read. -/
structure Glob where
  /-- Where reading goes on. -/
  cursor : Cursor
  /-- The groups open there. -/
  groups : Groups
  deriving DecidableEq, Repr

/-- Step over one character of a group, or two if the first is a backslash in front of
whitespace or a quote. -/
def skipGlobCharacter (c : Cursor) : Cursor :=
  let after := c.consume
  if c.sees '\\' ∧ (isSpace after.lookahead ∨ after.sees '\"') then after.consume else after

/-- One turn of reading a group. A closer that was never opened ends the glob; so do
whitespace and quotes, and an expansion, whose depth is remembered. -/
def globTurn (depth : UInt8) (now : Glob) : Turn Glob GlobResult :=
  let c := now.cursor
  let x := c.lookahead
  if x = '\x00' then .done (depth, none)
  else
    match now.groups.count x with
    | none => .done (claimGlob 0 c)
    | some groups =>
      let here := if x = '$' then c.markEnd.consume else c
      if x = '$' ∧ splitsGlob here.lookahead then
        .done (claimGlob (UInt8.ofNat (min groups.parens 255)) here)
      else if isSpace x ∨ here.sees '\"' then .done (claimGlob 0 here.markEnd)
      else .again ⟨(skipGlobCharacter here).markEnd, groups⟩

theorem remaining_skipGlobCharacter_lt {c : Cursor} (hpos : 0 < c.remaining) :
    (skipGlobCharacter c).remaining < c.remaining := by
  unfold skipGlobCharacter
  dsimp only
  split <;> simp only [Cursor.remaining_consume] <;> omega

theorem remaining_skipGlobCharacter_le (c : Cursor) :
    (skipGlobCharacter c).remaining ≤ c.remaining := by
  unfold skipGlobCharacter
  dsimp only
  split <;> simp only [Cursor.remaining_consume] <;> omega

theorem globTurn_shrinks (depth : UInt8) :
    Turn.Shrinks (globTurn depth) (fun now => now.cursor.remaining) := by
  intro now later h
  unfold globTurn at h
  dsimp only at h
  split at h
  · cases h
  · next hnul =>
    have hpos := Cursor.remaining_pos_of_lookahead (c := now.cursor) hnul
    split at h
    · cases h
    · generalize hhere : (if now.cursor.lookahead = '$' then now.cursor.markEnd.consume
        else now.cursor) = here at h
      have hlt : (skipGlobCharacter here).remaining < now.cursor.remaining := by
        subst hhere
        split
        · have := remaining_skipGlobCharacter_le now.cursor.markEnd.consume
          simp only [Cursor.remaining_consume, Cursor.remaining_markEnd] at this
          omega
        · exact remaining_skipGlobCharacter_lt hpos
      split at h
      · cases h
      split at h
      · cases h
      · cases h
        exact hlt

/-- Read the group of a glob, in which a number of parentheses are open already. -/
def readGroup (depth : UInt8) (c : Cursor) : GlobResult :=
  Turn.run (globTurn depth) (fun now => now.cursor.remaining) (globTurn_shrinks depth)
    ⟨c, Groups.ofParens depth.toNat⟩

/-! ## The beginning

The beginning of a glob is examined step by step. Each of the following functions looks
at one feature and leaves the rest to the one before it.
-/

/-- An alternative: a glob can end with a bar at the end of a line. -/
def globAlternative (depth : UInt8) (c : Cursor) : GlobResult :=
  let after := if c.sees '|' then c.markEnd.consume else c
  if c.sees '|' ∧ after.lookahead ∈ ['\\', '\r', '\n'] then claimGlob depth after
  else if continuesGlob after.lookahead then readGroup depth after
  else (depth, none)

/-- An expansion right after the beginning splits the glob. -/
def globExpansion (depth : UInt8) (c : Cursor) : GlobResult :=
  let after := if c.sees '$' then c.markEnd.consume else c
  if c.sees '$' ∧ splitsGlob after.lookahead then claimGlob depth after
  else globAlternative depth after

/-- Whitespace right after the beginning ends the glob. -/
def globSpace (depth : UInt8) (c : Cursor) : GlobResult :=
  if isSpace c.lookahead then claimGlob 0 c.markEnd else globExpansion depth c

/-- The parenthesis after the pattern of a case item ends the glob, if whitespace follows
it. -/
def globCase (depth : UInt8) (c : Cursor) : GlobResult :=
  if c.sees ')' ∧ depth = 0 then
    let after := c.markEnd.consume
    if isSpace after.lookahead then claimGlob depth after else globSpace depth after
  else globSpace depth c

/-- A dash and a word after the beginning are an ordinary word if a parenthesis, a
backslash or a period follows them. -/
def globDash (depth : UInt8) (c : Cursor) : GlobResult :=
  if c.sees '-' then
    let after := c.markEnd.consume.consumeWhile Char.isAlphanum
    if after.lookahead ∈ [')', '\\', '.'] then (depth, none) else globCase depth after.markEnd
  else globCase depth c

/-- The first character is part of the glob, whatever it is. A parenthesis that was never
opened may come before it, but not in front of whitespace. -/
def globFirst (depth : UInt8) (c : Cursor) : GlobResult :=
  if c.sees ')' ∧ depth = 0 then
    let after := c.markEnd.consume
    if isSpace after.lookahead then (depth, none) else globDash depth after.markEnd.consume
  else globDash depth c.markEnd.consume

/-- Read a glob, given the remembered depth. A backslash at its beginning must escape a
quote or whitespace within the line. -/
def readGlob (depth : UInt8) (c : Cursor) : GlobResult :=
  let c := c.ignoreWhile isSpace
  if !beginsGlob c.lookahead then (0, none)
  else if c.sees '\\' then
    let after := c.consume
    let x := after.lookahead
    if (isSpace x ∨ x = '\"') ∧ x ≠ '\r' ∧ x ≠ '\n' then globFirst depth after.consume
    else (depth, none)
  else globFirst depth c

end ContextLexer.Shell
