/-
# The state of a layout scanner

The open blocks are known by their widths, the columns at which their lines begin. A
shallower line may close several blocks at once while only one dedent can be handed
out per call, so the others are owed. A dedent is always followed by a newline, which
waits in a queue until it is asked for.

A snapshot holds the number of owed dedents as one byte and then the widths, outermost
first, as two bytes each. The queue is not part of it: the host asks for the waiting
newline before it saves again.
-/

import ContextLexer.Offside.Kind
import ContextLexer.Scanner

namespace ContextLexer.Offside

open Snapshot

/-- The open blocks, the owed dedents and the tokens that have been decided on. -/
structure State where
  /-- The width of the outermost block, which never closes. -/
  base : UInt16
  /-- The widths of the other open blocks, innermost first. -/
  blocks : List UInt16
  /-- The number of dedents that are owed but not yet begun. -/
  owed : Nat
  /-- The tokens that have been decided on, handed out one per call. -/
  queue : List Kind
  deriving DecidableEq, Repr

namespace State

/-- One block of width zero, and nothing pending. -/
def initial : State := ⟨0, [], 0, []⟩

/-- The width of the innermost block. -/
def innermost (s : State) : UInt16 := s.blocks.headD s.base

/-- The number of blocks inside the outermost one. -/
def depth (s : State) : Nat := s.blocks.length

/-- The widths of all open blocks, outermost first. -/
def widths (s : State) : List UInt16 := s.base :: s.blocks.reverse

/-- Open exactly the blocks of the given widths, outermost first. There is always an
outermost block; its width is zero unless another is given. -/
def setWidths (widths : List UInt16) (s : State) : State :=
  { s with base := widths.headD 0, blocks := widths.tail.reverse }

/-! ## Snapshots -/

/-- Write the owed dedents and the widths. -/
def write (s : State) : Write Unit := do
  putCount "owed dedent" s.owed
  s.widths.forM putWord16

/-- Read a number of widths. -/
def getWidths : Nat → Read (List UInt16)
  | 0 => return []
  | count + 1 => do
    let width ← getWord16
    return width :: (← getWidths count)

/-- Fill in the owed dedents and then as many widths as there are. -/
def fields : Load State Unit := do
  let owed ← field getByte
  fill fun s => { s with owed := owed.toNat }
  let loading ← get
  let widths ← field (getWidths (loading.input.remaining / 2))
  fill (setWidths widths)
  field expectEnd

/-- Take over the state that a snapshot tells of. Only the empty snapshot, which tells
of the initial state, also empties the queue. -/
def load (s : State) (bytes : List UInt8) : Loaded State :=
  if bytes = [] then ⟨initial, none⟩
  else fields.run { initial with queue := s.queue } bytes

end State

end ContextLexer.Offside
