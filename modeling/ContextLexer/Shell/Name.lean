/-
# Names, descriptors and arrows

At the beginning of a command stand the names of assigned variables, the descriptors of
redirections and the arrows of heredocs. Which of them begins here can be told only
from the character behind it.
-/

import ContextLexer.Automaton
import ContextLexer.CharClass
import ContextLexer.Shell.Resolver

namespace ContextLexer.Shell

/-! ## In front of the name -/

/-- Whether a character in front of a name is ignored. Line feeds are, unless a line may
end here; inside an expansion nothing is. -/
def isNameFiller (accepted : Accepted) (c : Char) : Bool :=
  .expansionWord ∉ accepted &&
    (c = ' ' || c = '\t' || c = '\r' || (c = '\n' && .newline ∉ accepted))

/-- One turn of ignoring what stands in front of a name. A backslash must continue the
line; at the end of the text it stands for an empty name, and inside an expansion
another backslash after it begins a word. -/
def fillerTurn (accepted : Accepted) (c : Cursor) : Turn Cursor (Except Ruling Cursor) :=
  if isNameFiller accepted c.lookahead then .again c.ignore
  else if c.sees '\\' then
    let after := c.ignore
    if after.atEnd then .done (throw (.claim .variableName after.markEnd))
    else
      let line := if after.sees '\r' then after.ignore else after
      if line.sees '\n' then .again line.ignore
      else if line.sees '\\' ∧ .expansionWord ∈ accepted then
        .done (throw (.handOver .expansionWord line))
      else .done (throw .decline)
  else .done (return c)

theorem isNameFiller_nul (accepted : Accepted) : isNameFiller accepted '\x00' = false := by
  simp [isNameFiller]

theorem fillerTurn_shrinks (accepted : Accepted) :
    Turn.Shrinks (fillerTurn accepted) Cursor.remaining := by
  intro c later h
  unfold fillerTurn at h
  split at h
  · next hfiller =>
    have hpos := Cursor.remaining_pos_of_lookahead (c := c) fun hnul => by
      rw [hnul, isNameFiller_nul] at hfiller
      cases hfiller
    cases h
    rw [Cursor.remaining_ignore]
    omega
  split at h
  · next hslash =>
    have hpos := Cursor.remaining_pos_of_lookahead (c := c) (by simp_all [Cursor.sees])
    dsimp only at h
    split at h
    · cases h
    · generalize hline : (if c.ignore.sees '\r' then c.ignore.ignore else c.ignore) = line at h
      have hle : line.remaining ≤ c.remaining - 1 := by
        subst hline
        split <;> simp only [Cursor.remaining_ignore] <;> omega
      split at h
      · cases h
        rw [Cursor.remaining_ignore]
        omega
      split at h <;> cases h
  · cases h

/-- Ignore what stands in front of a name, unless it decides the call. -/
def skipFiller (accepted : Accepted) (c : Cursor) : Except Ruling Cursor :=
  Turn.run (fillerTurn accepted) Cursor.remaining (fillerTurn_shrinks accepted) c

/-! ## The name -/

/-- The characters of names and descriptors. -/
def isNameCharacter (c : Char) : Bool := c.isDigit || isLetter c || c = '_'

/-- The claim of a name by the character behind it, at which the name ends. A run of
digits counts as a name too, but not in front of a hash sign. -/
def claimName (accepted : Accepted) (isNumber : Bool) (c : Cursor) : Ruling :=
  let x := c.lookahead
  let inBraces : Bool := .closingBrace ∈ accepted
  if x = '+' then
    let after := c.markEnd.consume
    .claimIf (after.sees '=' || after.sees ':' || inBraces) .variableName after
  else if x ∈ ['=', '[', '%', '@'] then .claim .variableName c.markEnd
  else if x = ':' ∧ !inBraces then .claim .variableName c.markEnd
  else if x = '#' ∧ !isNumber then .claim .variableName c.markEnd
  else if x = '-' ∧ inBraces then .claim .variableName c.markEnd
  else if x = '?' then
    let after := c.markEnd.consume
    .claimIf after.lookahead.isAlpha .variableName after
  else .decline

/-- Read a name or a descriptor. What begins with neither is handed over. -/
def readName (accepted : Accepted) (c : Cursor) : Ruling :=
  if isNameCharacter c.lookahead then
    let isNumber := (c.place.ahead.takeWhile isNameCharacter).all Char.isDigit
    let after := c.consumeWhile isNameCharacter
    if isNumber ∧ .fileDescriptor ∈ accepted ∧ (after.sees '>' ∨ after.sees '<') then
      .claim .fileDescriptor after
    else if .variableName ∈ accepted then claimName accepted isNumber after
    else .decline
  else if c.sees '{' then .handOver .braceRange c
  else if .expansionWord ∈ accepted then .handOver .expansionWord c
  else if .extendedGlob ∈ accepted then .handOver .extendedGlob c
  else .decline

/-! ## Arrows -/

/-- Read an arrow, the first character of which is next. -/
def readArrow (accepted : Accepted) (c : Cursor) : Ruling :=
  let first := c.consume
  if !first.sees '<' then .decline
  else
    let second := first.consume
    if second.sees '-' then
      .claimIf (decide (.arrowDash ∈ accepted)) .arrowDash second.consume
    else if second.sees '<' ∨ second.sees '=' then .decline
    else .claim .arrow second

/-- Read an arrow, a name or a descriptor. -/
def readArrowOrName (accepted : Accepted) (c : Cursor) : Ruling :=
  if .arrow ∈ accepted ∧ c.sees '<' then readArrow accepted c else readName accepted c

/-! ## Special parameters -/

/-- The characters that are names of special parameters by themselves. -/
def isSpecialParameter (c : Char) : Bool := c ∈ ['*', '@', '?', '-', '0', '_']

/-- The characters that make a special parameter an operand. -/
def makesOperand (c : Char) : Bool := c ∈ ['=', '[', ':', '-', '%', '#', '/']

/-- The resolver for names, descriptors and arrows. Outside expansions a special parameter
may come first: it is no name if an operator follows, and a glob if whitespace does. -/
def resolveName (accepted : Accepted) (c : Cursor) : Ruling :=
  match skipFiller accepted c with
  | .error ruling => ruling
  | .ok c =>
    if .expansionWord ∉ accepted ∧ isSpecialParameter c.lookahead then
      let after := c.markEnd.consume
      if makesOperand after.lookahead then .decline
      else if .extendedGlob ∈ accepted ∧ isSpace after.lookahead then
        .claim .extendedGlob after.markEnd
      else readArrowOrName accepted after
    else readArrowOrName accepted c

end ContextLexer.Shell
