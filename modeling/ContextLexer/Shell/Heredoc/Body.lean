/-
# Heredoc bodies

The body of a heredoc is returned in parts. The first scan returns all of it, or the
text in front of the first expansion. Later scans return the text after an expansion,
up to the next one or to the closing line.

The closing line is looked for after every line feed and at the beginning of every
line. A part of the delimiter that came before the rest of the line turned out to be
something else stays consumed, as does the character at which the two differ. A body
that the end of the text cuts off is returned, and the heredoc is cleared.
-/

import ContextLexer.Automaton
import ContextLexer.CharClass
import ContextLexer.Shell.Heredoc.Basic
import ContextLexer.Shell.Kind
import ContextLexer.Token

namespace ContextLexer.Shell

/-- Which part of a body is scanned. -/
inductive BodyPart
  /-- The body from its beginning. -/
  | leading
  /-- The body after an expansion. -/
  | trailing
  deriving DecidableEq, Repr

namespace BodyPart

/-- The kind of a part that an expansion or another part follows. -/
def middle : BodyPart → Kind
  | leading => .heredocOpening
  | trailing => .heredocContent

/-- The kind of a part that reaches the end of the body. -/
def final : BodyPart → Kind
  | leading => .heredocBody
  | trailing => .heredocEnd

end BodyPart

/-- A body being scanned. -/
structure Body where
  /-- The heredoc, with what the scan has found out about it. -/
  heredoc : Heredoc
  /-- Where the scan goes on. -/
  cursor : Cursor
  /-- Whether the scan has stepped over anything. -/
  advanced : Bool
  deriving DecidableEq, Repr

/-- What a scan of a body finds. -/
inductive Finding
  /-- A part of the body, which leaves the heredoc open. -/
  | part (kind : Kind) (c : Cursor)
  /-- A part that ends with the closing line, so that nothing is left of the heredoc. -/
  | closing (kind : Kind) (c : Cursor)
  /-- Nothing that could be claimed. -/
  | nothing
  deriving DecidableEq, Repr

/-- What a scan of a body leads to: the heredoc afterwards, and what was found. -/
abbrev BodyResult := Heredoc × Finding

/-- Whether a character after a dollar sign makes it an expansion inside a body. -/
def beginsExpansionInBody (c : Char) : Bool := c.isAlpha || c = '{' || c = '('

/-- A turn at a dollar sign. The part ends in front of an expansion. Where the scan
begins with a dollar sign, nothing is left to return but an empty part at the beginning
of a line. -/
def dollarTurn (part : BodyPart) (now : Body) : Turn Body BodyResult :=
  let h := now.heredoc
  let c := now.cursor
  if h.raw then .again ⟨h, c.consume, true⟩
  else if now.advanced then
    let dollar := c.markEnd.consume
    if beginsExpansionInBody dollar.lookahead then .done (h.start, .part part.middle dollar)
    else .again ⟨h.start, dollar, true⟩
  else if part = .leading ∧ c.place.atLineStart then
    .done (h.start, .part part.middle c)
  else .done (h, .nothing)

/-- What is found at the closing line: the kind of the final part tells that no token is
left for the delimiter. -/
def closingLine (kind : Kind) (c : Cursor) : Finding :=
  if kind = .heredocEnd then .closing kind c else .part kind c

/-- A turn at a line feed. The part ends after it if the closing line follows. A line feed
with which the scan begins belongs to the line of the arrow. -/
def lineFeedTurn (part : BodyPart) (now : Body) : Turn Body BodyResult :=
  let h := now.heredoc
  let line := if now.advanced then now.cursor.consume else now.cursor.ignore
  let text := if h.indented then line.consumeWhile isSpace else line
  match meetDelimiter h.delimiter text.markEnd with
  | (true, after) =>
    .done (h, closingLine (if h.started then part.middle else part.final) after)
  | (false, after) => .again ⟨h, after, true⟩

/-- A turn at a character of the text. At the beginning of a line, whitespace is skipped
and the closing line is looked for. -/
def textTurn (part : BodyPart) (now : Body) : Turn Body BodyResult :=
  let h := now.heredoc
  let c := now.cursor
  if c.place.atLineStart then
    let text := if now.advanced then c.consumeWhile isSpace else c.ignoreWhile isSpace
    match part with
    | .trailing =>
      match meetDelimiter h.delimiter text with
      | (true, after) => .done (h, .part part.middle after)
      | (false, after) => .again ⟨h, after.consume, true⟩
    | .leading =>
      match meetDelimiter h.delimiter text.markEnd with
      | (true, after) => .done (h, .part part.final after)
      | (false, after) => .again ⟨h, after.consume, true⟩
  else .again ⟨h, c.consume, true⟩

/-- One turn of scanning a body. A backslash takes the character after it along. -/
def bodyTurn (part : BodyPart) (now : Body) : Turn Body BodyResult :=
  let x := now.cursor.lookahead
  if x = '\x00' then
    if now.cursor.atEnd ∧ now.advanced then
      .done (Heredoc.cleared, .part part.final now.cursor)
    else .done (now.heredoc, .nothing)
  else if x = '\\' then .again ⟨now.heredoc, now.cursor.consume.consume, true⟩
  else if x = '$' then dollarTurn part now
  else if x = '\n' then lineFeedTurn part now
  else textTurn part now

/-! ## Progress -/

theorem dollarTurn_lt {part : BodyPart} {now later : Body} (hpos : 0 < now.cursor.remaining)
    (h : dollarTurn part now = .again later) :
    later.cursor.remaining < now.cursor.remaining := by
  unfold dollarTurn at h
  dsimp only at h
  split at h
  · cases h
    simp only [Cursor.remaining_consume]
    omega
  split at h
  · split at h
    · cases h
    · cases h
      simp only [Cursor.remaining_consume, Cursor.remaining_markEnd]
      omega
  split at h <;> cases h

theorem lineFeedTurn_lt {part : BodyPart} {now later : Body}
    (hpos : 0 < now.cursor.remaining) (h : lineFeedTurn part now = .again later) :
    later.cursor.remaining < now.cursor.remaining := by
  unfold lineFeedTurn at h
  dsimp only at h
  generalize hline : (if now.advanced then now.cursor.consume else now.cursor.ignore) = line at h
  have hless : line.remaining < now.cursor.remaining := by
    subst hline
    split <;> simp only [Cursor.remaining_consume, Cursor.remaining_ignore] <;> omega
  generalize htext :
    (if now.heredoc.indented then line.consumeWhile isSpace else line) = text at h
  have hle : text.remaining ≤ line.remaining := by
    subst htext
    split
    · exact Cursor.remaining_consumeWhile_le _ _
    · exact Nat.le_refl _
  have hmatch := remaining_meetDelimiter_le now.heredoc.delimiter text.markEnd
  rw [Cursor.remaining_markEnd] at hmatch
  split at h
  · cases h
  · next after hafter =>
    cases h
    rw [hafter] at hmatch
    dsimp only at hmatch ⊢
    omega

theorem textTurn_lt {part : BodyPart} {now later : Body}
    (hpos : 0 < now.cursor.remaining) (h : textTurn part now = .again later) :
    later.cursor.remaining < now.cursor.remaining := by
  unfold textTurn at h
  dsimp only at h
  split at h
  · generalize htext : (if now.advanced then now.cursor.consumeWhile isSpace
      else now.cursor.ignoreWhile isSpace) = text at h
    have hle : text.remaining ≤ now.cursor.remaining := by
      subst htext
      split
      · exact Cursor.remaining_consumeWhile_le _ _
      · exact Cursor.remaining_ignoreWhile_le _ _
    split at h
    · have hmatch := remaining_meetDelimiter_le now.heredoc.delimiter text
      split at h
      · cases h
      · next after hafter =>
        cases h
        rw [hafter] at hmatch
        simp only [Cursor.remaining_consume] at hmatch ⊢
        omega
    · have hmatch := remaining_meetDelimiter_le now.heredoc.delimiter text.markEnd
      rw [Cursor.remaining_markEnd] at hmatch
      split at h
      · cases h
      · next after hafter =>
        cases h
        rw [hafter] at hmatch
        simp only [Cursor.remaining_consume] at hmatch ⊢
        omega
  · cases h
    simp only [Cursor.remaining_consume]
    omega

theorem bodyTurn_shrinks (part : BodyPart) :
    Turn.Shrinks (bodyTurn part) (fun now => now.cursor.remaining) := by
  intro now later h
  unfold bodyTurn at h
  dsimp only at h
  split at h
  · split at h <;> cases h
  · next hnul =>
    have hpos := Cursor.remaining_pos_of_lookahead (c := now.cursor) hnul
    split at h
    · cases h
      simp only [Cursor.remaining_consume]
      omega
    split at h
    · exact dollarTurn_lt hpos h
    split at h
    · exact lineFeedTurn_lt hpos h
    · exact textTurn_lt hpos h

/-- Scan a part of the body of a heredoc. -/
def readBody (part : BodyPart) (h : Heredoc) (c : Cursor) : BodyResult :=
  Turn.run (bodyTurn part) (fun now => now.cursor.remaining) (bodyTurn_shrinks part)
    ⟨h, c, false⟩

end ContextLexer.Shell
