/-
# Loops inside comments

A turn in a comment may consume nothing: it may act on a character that was read before, as
part of something that turned out not to be a character literal. But then this character is
spent. So the characters that are left get fewer, or they stay as they are and a pending
character is gone. The smaller loops inside a comment consume in each of their turns.
-/

import ContextLexer.Proofs.Delimited.Consuming
import ContextLexer.Proofs.Iterations

namespace ContextLexer

/-- A turn that has only its cursor to go by leads onward. -/
theorem Nearsighted.leadsOnward {α ρ : Type} {view : ρ → α × Cursor}
    {turn : Cursor → Turn Cursor ρ} (h : Nearsighted (Turn.outlook view) turn) (c : Cursor) :
    (turn c).LeadsOnward c id := by
  have hgoes := h.goesOn c
  cases hturn : turn c with
  | again later =>
      rw [hturn] at hgoes
      obtain ⟨text, htext⟩ := hgoes
      exact ⟨text, htext.leads⟩
  | done result => trivial

namespace Delimited

open Turn (Progresses Stops)

/-- What is left to do inside a comment: the characters ahead, and then the pending one. -/
def Spot.left (spot : Spot) : Nat × Nat := (spot.cursor.remaining, pendingSize spot.pending)

/-- A turn that goes on leaves fewer characters, or as many and no pending one. -/
theorem left_commentTurn_lt {now later : Open} (h : commentTurn now = .again later) :
    Prod.Lex (· < ·) (· < ·) later.spot.left now.spot.left := by
  have hsize : later.spot.size < now.spot.size := commentTurn_shrinks now later h
  have hpending (pending : Option Char) : pendingSize pending ≤ 1 := by
    cases pending <;> simp [pendingSize]
  have hnow := hpending now.spot.pending
  rw [Spot.size, Spot.size] at hsize
  rw [Prod.lex_def]
  show later.spot.cursor.remaining < now.spot.cursor.remaining ∨
    later.spot.cursor.remaining = now.spot.cursor.remaining ∧
      pendingSize later.spot.pending < pendingSize now.spot.pending
  omega

/-- The loops inside comments make progress, from whatever state they begin. -/
structure CommentsProgress : Prop where
  /-- What is left gets less with every turn of a comment that goes on. -/
  left_lt (now later : Open) : commentTurn now = .again later →
    Prod.Lex (· < ·) (· < ·) later.spot.left now.spot.left
  /-- No turn goes back. -/
  onward (now later : Open) : commentTurn now = .again later →
    now.spot.cursor.place.Onward later.spot.cursor.place
  /-- A comment has at most two turns for every character, one for a pending character, and
  one that ends it. -/
  stops (now : Open) : ∃ n ≤ 2 * now.spot.cursor.remaining + pendingSize now.spot.pending + 1,
    Stops commentTurn now n
      (Turn.run commentTurn (fun now => now.spot.size) commentTurn_shrinks now)
  string : Progresses stringTurn id
  dottedName : Progresses nameTurn id
  quoted (tag : List Char) : Progresses (quotedTurn tag) id

theorem commentsProgress : CommentsProgress where
  left_lt _ _ := left_commentTurn_lt
  onward now later hagain := by
    have hgoes := commentTurn_goesOn (Cursor.GoesOn.refl now.spot.cursor)
    rw [hagain] at hgoes
    obtain ⟨text, htext⟩ := hgoes
    exact ⟨text, htext.leads⟩
  stops := Turn.stops_run commentTurn_shrinks
  string := .of_leadsOnward stringTurn_shrinks nearsighted_stringTurn.leadsOnward
  dottedName := .of_leadsOnward nameTurn_shrinks nearsighted_nameTurn.leadsOnward
  quoted tag := .of_leadsOnward (quotedTurn_shrinks tag) (nearsighted_quotedTurn tag).leadsOnward

end Delimited

end ContextLexer
