/-
# Comments read by recursion

The plainest way to read a comment is to call oneself for every comment inside it. A reader
that does so has a pending character of its own in every call, and a stack that grows with
the text. Here it is compared with the reader that has one pending character for all levels
and counts the levels instead. They agree on every text, complete or not: an opener leaves
nothing pending, so the levels have nothing to confuse, and a comment that does not end
leaves its callers at the end of the text, where all of them give up.
-/

import Mathlib.Logic.Relation
import ContextLexer.Proofs.Delimited.Consuming

namespace ContextLexer

/-- The states to which the turns of an automaton lead, as long as none of them ends the
run. -/
def Turn.Reaches {σ ρ : Type} (turn : σ → Turn σ ρ) : σ → σ → Prop :=
  Relation.ReflTransGen fun state later => turn state = .again later

namespace Delimited

/-! ## What pieces leave -/

/-- What the kind of a piece tells about the place that it leaves. An opener and a closer
leave less than there was and nothing pending, and only the end of the text is missed. -/
def Leaves (remaining : Nat) : Piece × Spot → Prop
  | (.opener, after) | (.closer, after) =>
    after.pending = none ∧ after.cursor.remaining < remaining
  | (.other, _) => True
  | (.missing, after) => after.cursor.atEnd = true

theorem Leaves.mono {fewer more : Nat} (hle : fewer ≤ more) {result : Piece × Spot}
    (h : Leaves fewer result) : Leaves more result := by
  obtain ⟨kind, after⟩ := result
  cases kind with
  | opener | closer => exact ⟨h.1, Nat.lt_of_lt_of_le h.2 hle⟩
  | other => exact h
  | missing => exact h

/-- The second character of an opener or a closer has been consumed with it. -/
theorem leaves_specialPiece (x : Char) (c : Cursor) : Leaves c.remaining (specialPiece x c) := by
  have hless {y : Char} (hy : y ≠ '\x00') (hsees : c.sees y = true) :
      c.consume.remaining < c.remaining := by
    have hpos := Cursor.remaining_pos_of_not_atEnd (Cursor.atEnd_of_sees hsees hy)
    rw [Cursor.remaining_consume]
    omega
  rw [specialPiece]
  split
  · split
    case isTrue hstar => exact ⟨rfl, hless (by decide) hstar⟩
    case isFalse => trivial
  split
  · split
    case isTrue hparenthesis => exact ⟨rfl, hless (by decide) hparenthesis⟩
    case isFalse => trivial
  split
  · trivial
  split <;> trivial

theorem leaves_plainPiece (remaining : Nat) (spent : Bool) (c : Cursor) :
    Leaves remaining (plainPiece spent c) := by
  rw [plainPiece]
  split <;> trivial

theorem leaves_piece (spot : Spot) : Leaves spot.cursor.remaining (piece spot) := by
  obtain ⟨c, pending⟩ := spot
  cases pending with
  | some x =>
      simp only [piece]
      split
      · exact leaves_specialPiece x c
      split
      · split
        case isTrue hend => exact hend
        case isFalse => trivial
      · exact leaves_plainPiece _ true c
  | none =>
      have hle : c.consume.remaining ≤ c.remaining := (Cursor.GoesOn.consume c).remaining_le
      simp only [piece]
      split
      · exact (leaves_specialPiece _ _).mono hle
      split
      case isTrue hend => exact hend
      split
      · trivial
      · exact leaves_plainPiece _ false c

theorem piece_balanced {spot after : Spot} {kind : Piece} (h : piece spot = (kind, after))
    (hkind : kind = .opener ∨ kind = .closer) :
    after.pending = none ∧ after.cursor.remaining < spot.cursor.remaining := by
  have hleaves := leaves_piece spot
  rw [h] at hleaves
  rcases hkind with rfl | rfl <;> exact hleaves

theorem atEnd_of_piece_missing {spot after : Spot} (h : piece spot = (.missing, after)) :
    after.cursor.atEnd = true := by
  have hleaves := leaves_piece spot
  rwa [h] at hleaves

theorem piece_of_atEnd {c : Cursor} (h : c.atEnd = true) :
    piece ⟨c, none⟩ = (.missing, ⟨c, none⟩) := by
  have hnul : c.lookahead = '\x00' := Cursor.lookahead_of_atEnd h
  have hspecial : isSpecial '\x00' = false := by decide
  simp [piece, hnul, hspecial, h]

/-! ## The recursive reader -/

theorem remaining_of_piece {spot after : Spot} {kind : Piece} (h : piece spot = (kind, after)) :
    after.cursor.remaining ≤ spot.cursor.remaining := by
  have hle := (goesOn_piece spot).remaining_le
  rwa [h] at hle

theorem size_of_piece {spot after : Spot} {kind : Piece} (h : piece spot = (kind, after))
    (hkind : kind ≠ .missing) : after.size < spot.size := by
  have hlt := size_piece_lt spot (by rwa [h])
  rwa [h] at hlt

/-- Read the rest of a comment behind its opener, with a call for every comment inside it.
The call begins with nothing pending, and the caller goes on where the call has ended, with
whatever it had pending itself. No call goes back, so every one has less to do. -/
def readNested (spot : Spot) :
    { result : Bool × Cursor // result.2.remaining ≤ spot.cursor.remaining } :=
  match hpiece : piece spot with
  | (.opener, after) =>
    let ⟨inner, hinner⟩ := readNested ⟨after.cursor, none⟩
    let ⟨rest, hrest⟩ := readNested ⟨inner.2, after.pending⟩
    ⟨rest, by
      have hafter := remaining_of_piece hpiece
      exact Nat.le_trans (Nat.le_trans hrest hinner) hafter⟩
  | (.closer, after) => ⟨(true, after.cursor), remaining_of_piece hpiece⟩
  | (.other, after) =>
    let ⟨rest, hrest⟩ := readNested after
    ⟨rest, Nat.le_trans hrest (remaining_of_piece hpiece)⟩
  | (.missing, after) => ⟨(false, after.cursor), remaining_of_piece hpiece⟩
termination_by spot.size
decreasing_by
  · have hless := size_of_piece hpiece (by decide)
    have hnone : pendingSize none = 0 := rfl
    simp only [Spot.size, hnone] at hless ⊢
    omega
  · have hless := size_of_piece hpiece (by decide)
    simp only [Spot.size] at hless hinner ⊢
    omega
  · exact size_of_piece hpiece (by decide)

/-- Read a comment whose opening parenthesis has been read as `readComment` does, but by
recursion. -/
def readRecursively (c : Cursor) : Bool × Cursor :=
  if c.sees '*' then (readNested ⟨c.consume, none⟩).1 else (false, c)

/-- A call and the comments that it reads, without the bound that makes it end. -/
theorem readNested_eq (spot : Spot) :
    (readNested spot).1 =
      match piece spot with
      | (.opener, after) =>
        (readNested ⟨(readNested ⟨after.cursor, none⟩).1.2, after.pending⟩).1
      | (.closer, after) => (true, after.cursor)
      | (.other, after) => (readNested after).1
      | (.missing, after) => (false, after.cursor) := by
  rw [readNested]
  split <;> next hpiece => simp only [hpiece]

/-- A caller goes on where the call for the comment inside has ended. -/
theorem readNested_opener {spot after : Spot} {inner : Bool × Cursor}
    (hpiece : piece spot = (.opener, after))
    (hinner : (readNested ⟨after.cursor, none⟩).1 = inner) :
    (readNested spot).1 = (readNested ⟨inner.2, after.pending⟩).1 := by
  subst hinner
  rw [readNested_eq, hpiece]

/-! ## Both readers -/

/-- What the counting reader goes on to where the recursive one has come to the end of a
comment: behind the outermost one it stops, and inside another one it reads the rest of
that, unless the text has ended. -/
def resume (depth : Nat) : Bool × Cursor → Bool × Cursor
  | (false, c) => (false, c)
  | (true, c) =>
    match depth with
    | 0 => (true, c)
    | depth + 1 =>
      Turn.run commentTurn (fun now => now.spot.size) commentTurn_shrinks
        ⟨⟨c, none⟩, depth + 1⟩

/-- A comment is incomplete only where the text has ended. -/
theorem atEnd_of_readNested {spot : Spot} {c : Cursor} (h : (readNested spot).1 = (false, c)) :
    c.atEnd = true := by
  induction spot using readNested.induct with
  | case1 spot after hpiece inner hinner hread rest hrest hread' ihinner ihrest =>
      rw [readNested_opener hpiece (congrArg Subtype.val hread)] at h
      exact ihrest h
  | case2 spot after hpiece =>
      rw [readNested_eq, hpiece] at h
      cases h
  | case3 spot after hpiece rest hrest hread ih =>
      rw [readNested_eq, hpiece] at h
      exact ih h
  | case4 spot after hpiece =>
      rw [readNested_eq, hpiece] at h
      cases h
      exact atEnd_of_piece_missing hpiece

/-- A caller whose text has ended gives up. -/
theorem readNested_of_atEnd {c : Cursor} (h : c.atEnd = true) :
    (readNested ⟨c, none⟩).1 = (false, c) := by
  rw [readNested_eq, piece_of_atEnd h]

/-- The counting reader reads to the end of the innermost open comment as the recursive one
does, and resumes the comment around it there. -/
theorem run_commentTurn (spot : Spot) (depth : Nat) :
    Turn.run commentTurn (fun now => now.spot.size) commentTurn_shrinks ⟨spot, depth + 1⟩ =
      resume depth (readNested spot).1 := by
  -- The depth grows by one for the call inside, so it is open in the induction.
  induction spot using readNested.induct generalizing depth with
  | case1 spot after hpiece inner hinner hread rest hrest hread' ihinner ihrest =>
      obtain ⟨hpending, -⟩ := piece_balanced hpiece (.inl rfl)
      have hafter : after = ⟨after.cursor, none⟩ := by rw [← hpending]
      have hturn : commentTurn ⟨spot, depth + 1⟩ =
          .again ⟨⟨after.cursor, none⟩, depth + 1 + 1⟩ := by
        rw [commentTurn, hpiece, ← hafter]
      rw [Turn.run_of_again hturn, ihinner, readNested_opener hpiece (congrArg Subtype.val hread),
        hread, hpending]
      rw [hpending] at ihrest
      obtain ⟨complete, c⟩ := inner
      cases complete with
      | true => exact ihrest depth
      | false =>
          have hend : c.atEnd = true := atEnd_of_readNested (congrArg Subtype.val hread)
          rw [readNested_of_atEnd hend]
          rfl
  | case2 spot after hpiece =>
      obtain ⟨hpending, -⟩ := piece_balanced hpiece (.inr rfl)
      have hafter : after = ⟨after.cursor, none⟩ := by rw [← hpending]
      rw [readNested_eq, hpiece]
      cases depth with
      | zero => exact Turn.run_of_done (by simp [commentTurn, hpiece, resume])
      | succ depth =>
          have hturn : commentTurn ⟨spot, depth + 1 + 1⟩ =
              .again ⟨⟨after.cursor, none⟩, depth + 1⟩ := by
            rw [commentTurn, hpiece, ← hafter]
            simp
          rw [Turn.run_of_again hturn]
          rfl
  | case3 spot after hpiece rest hrest hread ih =>
      have hturn : commentTurn ⟨spot, depth + 1⟩ = .again ⟨after, depth + 1⟩ := by
        rw [commentTurn, hpiece]
      rw [Turn.run_of_again hturn, ih, readNested_eq spot, hpiece]
  | case4 spot after hpiece =>
      rw [readNested_eq, hpiece]
      exact Turn.run_of_done (by simp [commentTurn, hpiece, resume])

/-! ## The depth -/

/-- No comment is open without an opener that has been passed, and the outermost one stays
open until its closer ends the reading. -/
theorem depth_of_reaches {first now : Open} (h : Turn.Reaches commentTurn first now)
    (hfirst : 0 < first.depth) :
    0 < now.depth ∧
      now.depth + now.spot.cursor.remaining ≤ first.depth + first.spot.cursor.remaining := by
  induction h with
  | refl => exact ⟨hfirst, Nat.le_refl _⟩
  | @tail now later hreach hturn ih =>
      obtain ⟨hpos, hle⟩ := ih
      rw [commentTurn] at hturn
      split at hturn
      · next after hpiece =>
        cases hturn
        obtain ⟨-, hless⟩ := piece_balanced hpiece (.inl rfl)
        exact ⟨Nat.succ_pos _, by dsimp only; omega⟩
      · next after hpiece =>
        split at hturn
        · cases hturn
        · cases hturn
          have hrest := remaining_of_piece hpiece
          exact ⟨by dsimp only; omega, by dsimp only; omega⟩
      · next after hpiece =>
        cases hturn
        have hrest := remaining_of_piece hpiece
        exact ⟨hpos, by dsimp only; omega⟩
      · cases hturn

/-- Counting the open comments does what recursion does. On every text, the reader that
counts tells the same as the one that calls itself and stops at the same place, and where
the text has less than four gibibytes its count stays between one and the largest number
of 32 bits in every state of its run. -/
theorem counting_refines_recursion (c : Cursor) :
    readComment c = readRecursively c ∧
      (Utf8.size c.place.text < UInt32.size →
        ∀ now, Turn.Reaches commentTurn ⟨⟨c.consume, none⟩, 1⟩ now →
          0 < now.depth ∧ now.depth < UInt32.size) := by
  constructor
  · rw [readComment, readRecursively]
    split
    case isTrue hstar =>
      rw [run_commentTurn]
      rcases (readNested ⟨c.consume, none⟩).1 with ⟨complete, after⟩
      cases complete <;> rfl
    case isFalse => rfl
  · intro hsize now hreach
    obtain ⟨hpos, hle⟩ := depth_of_reaches hreach Nat.one_pos
    have hremaining : c.remaining ≤ Utf8.size c.place.text := c.place.remaining_le_size
    have hword : 1 < UInt32.size := by decide
    rw [Cursor.remaining_consume] at hle
    dsimp only at hle
    exact ⟨hpos, by omega⟩

/-- A comment with another one inside, which is open there besides the outer one. -/
theorem counting_refines_recursion_inside :
    let c := Cursor.begin (.between ['('] ['*', '(', '*', '*', ')', '*', ')'])
    Utf8.size c.place.text < UInt32.size ∧
      Turn.Reaches commentTurn ⟨⟨c.consume, none⟩, 1⟩ ⟨⟨c.consume.consume.consume, none⟩, 2⟩ ∧
      readComment c = readRecursively c ∧ 0 < 2 ∧ 2 < UInt32.size := by
  intro c
  have hsize : Utf8.size c.place.text < UInt32.size := by decide
  have hreach : Turn.Reaches commentTurn ⟨⟨c.consume, none⟩, 1⟩
      ⟨⟨c.consume.consume.consume, none⟩, 2⟩ := .single rfl
  obtain ⟨hreads, hdepth⟩ := counting_refines_recursion c
  exact ⟨hsize, hreach, hreads, hdepth hsize _ hreach⟩

end Delimited

end ContextLexer
