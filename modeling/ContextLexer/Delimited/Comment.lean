/-
# Nested comments

A comment runs from its opener to the closer that balances it. Openers and closers do
not count inside the literals that a comment may contain: ordinary strings, character
literals, and quoted strings, which may carry the dotted name of an extension. Neither
does a single quote count inside an identifier. The text is cut into pieces first,
each of them an opener, a closer, or something else; the depth is counted over pieces.
-/

import ContextLexer.Delimited.CharacterLiteral
import ContextLexer.Delimited.QuotedString

namespace ContextLexer.Delimited

/-! ## Strings -/

/-- One turn of skipping a string. A backslash takes the character after it along. -/
def stringTurn (c : Cursor) : Turn Cursor Cursor :=
  if c.sees '\\' then .again c.consume.consume
  else if c.sees '\"' then .done c.consume
  else if c.atEnd then .done c
  else .again c.consume

theorem stringTurn_shrinks : Turn.Shrinks stringTurn Cursor.remaining := by
  intro c later h
  unfold stringTurn at h
  split at h
  · next hslash =>
    cases h
    have hpos := Cursor.remaining_pos_of_lookahead (c := c) (by simp_all [Cursor.sees])
    simp only [Cursor.remaining_consume]
    omega
  split at h
  · cases h
  split at h
  · cases h
  · next hend =>
    cases h
    have hpos := Cursor.remaining_pos_of_not_atEnd (c := c) (by simpa using hend)
    simp only [Cursor.remaining_consume]
    omega

/-- Skip a string whose opening quote has been read, or all of the text if no closing
quote follows. -/
def readString (c : Cursor) : Cursor := Turn.run stringTurn Cursor.remaining stringTurn_shrinks c

theorem remaining_readString_le (c : Cursor) : (readString c).remaining ≤ c.remaining := by
  refine Turn.run_le Cursor.remaining ?_ c
  intro c result h
  unfold stringTurn at h
  split at h
  · cases h
  split at h
  · cases h
    simp
  split at h
  · cases h
    exact Nat.le_refl _
  · cases h

/-! ## Identifiers -/

/-- The characters with which identifiers begin. -/
def beginsIdentifier (c : Char) : Bool := isLetter c || c = '_'

/-- The characters with which identifiers go on. -/
def continuesIdentifier (c : Char) : Bool := isAlphanumeric c || c = '_' || c = '\''

/-- Consume an identifier, and tell whether there was one. -/
def readIdentifier (c : Cursor) : Bool × Cursor :=
  if beginsIdentifier c.lookahead then (true, c.consume.consumeWhile continuesIdentifier)
  else (false, c)

/-- One turn of skipping a dotted name. -/
def nameTurn (c : Cursor) : Turn Cursor (Bool × Cursor) :=
  match readIdentifier c with
  | (true, after) => if after.sees '.' then .again after.consume else .done (true, after)
  | (false, after) => .done (false, after)

theorem remaining_readIdentifier_le (c : Cursor) :
    (readIdentifier c).2.remaining ≤ c.remaining := by
  unfold readIdentifier
  split
  · have := Cursor.remaining_consumeWhile_le continuesIdentifier c.consume
    rw [Cursor.remaining_consume] at this
    dsimp only
    omega
  · exact Nat.le_refl _

theorem beginsIdentifier_nul : beginsIdentifier '\x00' = false := by decide

theorem remaining_readIdentifier_lt {c : Cursor} (h : (readIdentifier c).1 = true) :
    (readIdentifier c).2.remaining < c.remaining := by
  unfold readIdentifier at h ⊢
  split
  · next hbegins =>
    have hpos : 0 < c.remaining := Cursor.remaining_pos_of_lookahead fun hnul => by
      rw [hnul, beginsIdentifier_nul] at hbegins
      cases hbegins
    have := Cursor.remaining_consumeWhile_le continuesIdentifier c.consume
    rw [Cursor.remaining_consume] at this
    dsimp only
    omega
  · next hbegins => simp [hbegins] at h

theorem nameTurn_shrinks : Turn.Shrinks nameTurn Cursor.remaining := by
  intro c later h
  unfold nameTurn at h
  split at h
  · next after hafter =>
    split at h
    · cases h
      have := remaining_readIdentifier_lt (c := c) (by rw [hafter])
      rw [hafter] at this
      rw [Cursor.remaining_consume]
      dsimp only at this
      omega
    · cases h
  · cases h

/-- Consume identifiers with dots between them, and tell whether the last dot was
followed by an identifier. -/
def readDottedName (c : Cursor) : Bool × Cursor :=
  Turn.run nameTurn Cursor.remaining nameTurn_shrinks c

theorem remaining_readDottedName_le (c : Cursor) : (readDottedName c).2.remaining ≤ c.remaining := by
  refine Turn.run_le (fun result : Bool × Cursor => result.2.remaining) ?_ c
  intro c result h
  have hle := remaining_readIdentifier_le c
  unfold nameTurn at h
  split at h
  · next after hafter =>
    split at h
    · cases h
    · cases h
      rwa [hafter] at hle
  · next after hafter =>
    cases h
    rwa [hafter] at hle

/-! ## Quoted strings -/

/-- Skip a quoted string and the brace that closes it. -/
def readQuotedToBrace (c : Cursor) : Cursor :=
  match readQuoted c with
  | (true, after) => after.consume
  | (false, after) => after

/-- Skip what an opening brace that has been read begins: a quoted string, which may have
one or two percent signs and a dotted name in front. -/
def readBraced (c : Cursor) : Cursor :=
  if c.sees '%' then
    let sign := c.consume
    match readDottedName (if sign.sees '%' then sign.consume else sign) with
    | (true, after) => readQuotedToBrace (after.consumeWhile isSpace)
    | (false, after) => after
  else readQuotedToBrace c

theorem remaining_readQuotedToBrace_le (c : Cursor) :
    (readQuotedToBrace c).remaining ≤ c.remaining := by
  have hle := remaining_readQuoted_le c
  unfold readQuotedToBrace
  split
  · next after hafter =>
    rw [hafter] at hle
    rw [Cursor.remaining_consume]
    dsimp only at hle
    omega
  · next after hafter => rwa [hafter] at hle

theorem remaining_readBraced_le (c : Cursor) : (readBraced c).remaining ≤ c.remaining := by
  unfold readBraced
  split
  · dsimp only
    generalize hname : (if c.consume.sees '%' then c.consume.consume else c.consume) = name
    have hsign : name.remaining ≤ c.remaining := by
      subst hname
      split <;> simp only [Cursor.remaining_consume] <;> omega
    have hle := remaining_readDottedName_le name
    split
    · next after hafter =>
      rw [hafter] at hle
      have hspace := Cursor.remaining_consumeWhile_le isSpace after
      have hquoted := remaining_readQuotedToBrace_le (after.consumeWhile isSpace)
      dsimp only at hle
      omega
    · next after hafter =>
      rw [hafter] at hle
      dsimp only at hle
      omega
  · exact remaining_readQuotedToBrace_le c

/-! ## Pieces -/

/-- A place inside a comment: the cursor, and a character before it that has been read
but not acted on. -/
structure Spot where
  /-- Where reading goes on. -/
  cursor : Cursor
  /-- A character read before whose meaning is still open. -/
  pending : Option Char
  deriving DecidableEq, Repr

/-- How much is left to do at a place inside a comment. -/
def Spot.size (spot : Spot) : Nat := 2 * spot.cursor.remaining + pendingSize spot.pending

/-- What the text inside a comment consists of. -/
inductive Piece
  /-- The beginning of a comment. -/
  | opener
  /-- The end of a comment. -/
  | closer
  /-- A literal, an identifier, or a single character. -/
  | other
  /-- The end of the text. -/
  | missing
  deriving DecidableEq, Repr

/-- The characters that begin something longer than themselves. -/
def isSpecial (c : Char) : Bool :=
  c = '(' || c = '*' || c = '\'' || c = '\"' || c = '{'

/-- Read the piece that begins with a special character, which has been consumed. -/
def specialPiece (x : Char) (c : Cursor) : Piece × Spot :=
  if x = '(' then
    if c.sees '*' then (.opener, ⟨c.consume, none⟩) else (.other, ⟨c, none⟩)
  else if x = '*' then
    if c.sees ')' then (.closer, ⟨c.consume, none⟩) else (.other, ⟨c, none⟩)
  else if x = '\'' then
    let (pending, after) := characterLiteral c
    (.other, ⟨after, pending⟩)
  else if x = '\"' then (.other, ⟨readString c, none⟩)
  else (.other, ⟨readBraced c, none⟩)

/-- Read an identifier; where there is none, step over one character unless a pending one
has been spent already. -/
def plainPiece (spent : Bool) (c : Cursor) : Piece × Spot :=
  match readIdentifier c with
  | (true, after) => (.other, ⟨after, none⟩)
  | (false, after) => (.other, ⟨if spent then after else after.consume, none⟩)

/-- Read one piece. A pending character is acted on in place of the next one, and is not
consumed a second time. -/
def piece (spot : Spot) : Piece × Spot :=
  let c := spot.cursor
  match spot.pending with
  | some x =>
    if isSpecial x then specialPiece x c
    else if x = '\x00' then
      if c.atEnd then (.missing, ⟨c, none⟩) else (.other, ⟨c, none⟩)
    else plainPiece true c
  | none =>
    if isSpecial c.lookahead then specialPiece c.lookahead c.consume
    else if c.atEnd then (.missing, ⟨c, none⟩)
    else if c.lookahead = '\x00' then (.other, ⟨c.consume, none⟩)
    else plainPiece false c

/-! ## Comments -/

/-- A comment being read: a place in it, and the number of comments open there. -/
structure Open where
  /-- Where reading goes on. -/
  spot : Spot
  /-- The number of comments that have begun and not ended. -/
  depth : Nat
  deriving DecidableEq, Repr

/-- One turn of reading a comment counts one piece. -/
def commentTurn (now : Open) : Turn Open (Bool × Cursor) :=
  match piece now.spot with
  | (.opener, spot) => .again ⟨spot, now.depth + 1⟩
  | (.closer, spot) =>
    if now.depth ≤ 1 then .done (true, spot.cursor) else .again ⟨spot, now.depth - 1⟩
  | (.other, spot) => .again ⟨spot, now.depth⟩
  | (.missing, spot) => .done (false, spot.cursor)

/-- A special character leaves less to do than it had before it was consumed. -/
theorem size_specialPiece_le (x : Char) (c : Cursor) :
    (specialPiece x c).2.size ≤ 2 * c.remaining := by
  have hnone : pendingSize none = 0 := rfl
  unfold specialPiece
  split
  · split <;> simp only [Spot.size, hnone, Cursor.remaining_consume] <;> omega
  split
  · split <;> simp only [Spot.size, hnone, Cursor.remaining_consume] <;> omega
  split
  · exact characterLiteral_size_le c
  split
  · have := remaining_readString_le c
    simp only [Spot.size, hnone]
    omega
  · have := remaining_readBraced_le c
    simp only [Spot.size, hnone]
    omega

theorem size_plainPiece_le (spent : Bool) (c : Cursor) :
    (plainPiece spent c).2.size ≤ 2 * c.remaining := by
  have hnone : pendingSize none = 0 := rfl
  have hle := remaining_readIdentifier_le c
  unfold plainPiece
  split
  · next after hafter =>
    rw [hafter] at hle
    simp only [Spot.size, hnone]
    dsimp only at hle
    omega
  · next after hafter =>
    rw [hafter] at hle
    dsimp only at hle
    cases spent
    · simp only [Spot.size, hnone, Bool.false_eq_true, if_false, Cursor.remaining_consume]
      omega
    · simp only [Spot.size, hnone, if_true]
      omega

theorem size_plainPiece_lt {c : Cursor} (h : c.atEnd = false) :
    (plainPiece false c).2.size < 2 * c.remaining := by
  have hnone : pendingSize none = 0 := rfl
  have hpos := Cursor.remaining_pos_of_not_atEnd h
  have hlt := remaining_readIdentifier_lt (c := c)
  have hle := remaining_readIdentifier_le c
  unfold plainPiece
  split
  · next after hafter =>
    rw [hafter] at hlt
    simp only [Spot.size, hnone]
    have := hlt rfl
    dsimp only at this
    omega
  · next after hafter =>
    rw [hafter] at hle
    dsimp only at hle
    simp [Spot.size, hnone]
    omega

/-- Every piece but the end of the text leaves less to do. -/
theorem size_piece_lt (spot : Spot) (h : (piece spot).1 ≠ .missing) :
    (piece spot).2.size < spot.size := by
  obtain ⟨c, pending⟩ := spot
  have hnone : pendingSize none = 0 := rfl
  have hsome (x : Char) : pendingSize (some x) = 1 := rfl
  have hspecial (x : Char) (c : Cursor) := size_specialPiece_le x c
  cases pending with
  | some x =>
    simp only [piece] at h ⊢
    split
    · have := hspecial x c
      simp only [Spot.size, hsome] at this ⊢
      omega
    split
    · split
      · next hend => simp_all
      · simp [Spot.size, hsome, hnone]
    · have := size_plainPiece_le true c
      simp only [Spot.size, hsome] at this ⊢
      omega
  | none =>
    simp only [piece] at h ⊢
    split
    · next hx =>
      have hpos := Cursor.remaining_pos_of_lookahead (c := c) fun hnul => by
        rw [hnul] at hx
        exact absurd hx (by decide)
      have := hspecial c.lookahead c.consume
      rw [Cursor.remaining_consume] at this
      simp only [Spot.size, hnone] at this ⊢
      omega
    split
    · next hend => simp_all
    · next hend =>
      have hend : c.atEnd = false := by simpa using hend
      have hpos := Cursor.remaining_pos_of_not_atEnd hend
      split
      · simp only [Spot.size, hnone, Cursor.remaining_consume]
        omega
      · have := size_plainPiece_lt hend
        simp only [Spot.size, hnone] at this ⊢
        omega

theorem commentTurn_shrinks : Turn.Shrinks commentTurn (fun now => now.spot.size) := by
  intro now later h
  have hlt := size_piece_lt now.spot
  unfold commentTurn at h
  split at h
  · next hpiece =>
    cases h
    simpa [hpiece] using hlt
  · next hpiece =>
    split at h
    · cases h
    · cases h
      simpa [hpiece] using hlt
  · next hpiece =>
    cases h
    simpa [hpiece] using hlt
  · cases h

/-- Read a comment whose opening parenthesis has been read, and tell whether it is there
and complete. -/
def readComment (c : Cursor) : Bool × Cursor :=
  if c.sees '*' then
    Turn.run commentTurn (fun now => now.spot.size) commentTurn_shrinks
      ⟨⟨c.consume, none⟩, 1⟩
  else (false, c)

end ContextLexer.Delimited
