/-
# What a call of the layout scanner changes

A call hands out a token that was decided on before, or it decides first. There are few
ways to decide: an owed dedent is begun, a line or the text ends, a block is opened, or
inner blocks are closed, and those that no dedent was handed out for are owed. Which of
them it is depends on the text and on what the host accepts; what is left of the state
does not. Later facts about calls use only the list of these ways.
-/

import ContextLexer.Offside.Scanner

namespace ContextLexer

namespace Offside

/-- The states that a call can lead to, and the token that it hands out there. -/
inductive Change (s : State) : State → Option Kind → Prop
  /-- The call declines. -/
  | nothing : Change s s none
  /-- A token that was decided on before is handed out. -/
  | queued {kind : Kind} {queue : List Kind} (waiting : s.queue = kind :: queue) :
      Change s { s with queue } (some kind)
  /-- A line ends at the level of the innermost block, or the text ends. -/
  | ended (idle : s.queue = []) : Change s s (some .newline)
  /-- An owed dedent is begun. -/
  | owed {owed : Nat} (idle : s.queue = []) (due : s.owed = owed + 1) :
      Change s { s with owed, queue := [.newline] } (some .dedent)
  /-- A block is opened that is wider than the innermost one. -/
  | opened {width : UInt16} (idle : s.queue = []) (wider : s.innermost < width) :
      Change s { s with blocks := width :: s.blocks } (some .indent)
  /-- Inner blocks are closed, the first of them with a dedent at once. -/
  | closed {first : UInt16} {inner outer : List UInt16} (idle : s.queue = [])
      (split : s.blocks = first :: inner ++ outer) :
      Change s { s with blocks := outer, owed := s.owed + inner.length, queue := [.newline] }
        (some .dedent)
  /-- Inner blocks are closed and owed. -/
  | owing {inner outer : List UInt16} (idle : s.queue = []) (split : s.blocks = inner ++ outer) :
      Change s { s with blocks := outer, owed := s.owed + inner.length } none

/-- A verdict that is one of the changes. -/
def Changes (s : State) (verdict : Verdict State Kind) : Prop :=
  Change s verdict.state (verdict.claim.map Prod.fst)

namespace State

variable {s : State} {accepted : Acceptance Kind} {c : Cursor}

/-! ## Handing out -/

theorem handOut_of_idle (idle : s.queue = []) : s.handOut accepted c = ⟨s, none⟩ := by
  rw [handOut, idle]

theorem handOut_of_mem {kind : Kind} {queue : List Kind} (waiting : s.queue = kind :: queue)
    (h : kind ∈ accepted) : s.handOut accepted c = ⟨{ s with queue }, some (kind, c)⟩ := by
  rw [handOut, waiting]
  exact if_pos h

/-- Without a decision the call hands out what is waiting. -/
theorem changes_handOut : Changes s (s.handOut accepted c) := by
  cases hqueue : s.queue with
  | nil =>
      rw [handOut_of_idle hqueue]
      exact .nothing
  | cons kind queue =>
      by_cases h : kind ∈ accepted
      · rw [handOut_of_mem hqueue h]
        exact .queued hqueue
      · rw [handOut, hqueue]
        simp only [if_neg h]
        exact .nothing

/-- The end of a line or of the text is handed out at once. -/
theorem changes_newline (idle : s.queue = []) (h : .newline ∈ accepted) :
    Changes s ({ s with queue := [.newline] }.handOut accepted c) := by
  rw [handOut_of_mem rfl h]
  have hsame : { s with queue := [] } = s := by rw [← idle]
  rw [hsame]
  exact .ended idle

/-! ## Deciding -/

/-- Blocks that are closed with a dedent at once have it handed out. -/
theorem changes_closing {first : UInt16} {inner outer : List UInt16} (idle : s.queue = [])
    (split : s.blocks = first :: inner ++ outer) (h : .dedent ∈ accepted) :
    Changes s (({ s with
      blocks := outer
      owed := s.owed + inner.length
      queue := closing } : State).handOut accepted c) := by
  rw [handOut_of_mem rfl h]
  exact .closed idle split

/-- At the end of the text the innermost block is closed, or the text ends. -/
theorem changes_decideAtEnd (idle : s.queue = []) :
    Changes s ((s.decideAtEnd accepted).handOut accepted c) := by
  rw [decideAtEnd]
  split
  case isTrue h =>
    obtain ⟨b, outer, hblocks⟩ := List.exists_cons_of_ne_nil h.2
    have hclosing := @changes_closing s accepted c b [] outer idle hblocks h.1
    rw [hblocks]
    exact hclosing
  case isFalse =>
    split
    case isTrue h => exact changes_newline idle h
    case isFalse => exact changes_handOut

/-- A narrower line closes the blocks that are wider than itself. -/
theorem changes_narrow (idle : s.queue = []) (width : UInt16) :
    Changes s ((s.narrow accepted width).handOut accepted c) := by
  have hsplit := List.takeWhile_append_dropWhile (p := (width < ·)) (l := s.blocks)
  have hclosed : s.blocks.length - (s.blocks.dropWhile (width < ·)).length =
      (s.blocks.takeWhile (width < ·)).length := by
    have hlength := congrArg List.length hsplit
    rw [List.length_append] at hlength
    omega
  rw [narrow]
  simp only [hclosed]
  generalize s.blocks.takeWhile (width < ·) = inner at hsplit
  generalize s.blocks.dropWhile (width < ·) = outer at hsplit
  cases inner with
  | nil => exact changes_handOut
  | cons first inner =>
      rw [if_neg (by simp)]
      split
      case isTrue h => exact changes_closing idle hsplit.symm h
      case isFalse =>
        rw [handOut_of_idle (by exact idle)]
        exact .owing idle hsplit.symm

/-- A line ends the one before it, opens a block, or closes some. -/
theorem changes_decideAtLine (idle : s.queue = []) (width : UInt16) (crossed : Bool) :
    Changes s ((s.decideAtLine accepted width crossed).handOut accepted c) := by
  rw [decideAtLine]
  split
  case isTrue =>
    split
    case isTrue h => exact changes_newline idle h.2
    case isFalse => exact changes_handOut
  case isFalse =>
    split
    case isTrue wider =>
      split
      case isTrue h =>
        rw [handOut_of_mem rfl h]
        have hsame : ({ s with blocks := width :: s.blocks, queue := [] } : State) =
            { s with blocks := width :: s.blocks } := by rw [idle]
        rw [hsame]
        exact .opened idle wider
      case isFalse => exact changes_handOut
    case isFalse => exact changes_narrow idle width

/-- A call makes one of the changes, whatever the text and the accepted kinds. -/
theorem changes_scan (s : State) (accepted : Acceptance Kind) (c : Cursor) :
    Changes s (s.scan accepted c) := by
  rw [scan]
  split
  case isTrue idle =>
    rw [decideNext]
    split
    case isTrue h =>
      obtain ⟨owed, hdue⟩ := Nat.exists_eq_succ_of_ne_zero (Nat.ne_of_gt h.2)
      rw [handOut_of_mem rfl h.1, hdue]
      exact .owed idle hdue
    case isFalse =>
      dsimp only
      split
      case isTrue => exact changes_decideAtEnd idle
      case isFalse => exact changes_decideAtLine idle _ _
  case isFalse => exact changes_handOut

end State

/-- What a host sees of a call is one of the changes. -/
theorem change_call (s : State) (accepted : Acceptance Kind) (origin : Place) :
    Change s (Scanner.call s accepted origin).state
      ((Scanner.call s accepted origin).token.map Token.kind) := by
  have hchange := s.changes_scan accepted (.begin origin)
  have hkind : (Scanner.call s accepted origin).token.map Token.kind =
      (s.scan accepted (.begin origin)).claim.map Prod.fst :=
    Scanner.kind_call s accepted origin
  rw [hkind]
  exact hchange

end Offside

end ContextLexer
