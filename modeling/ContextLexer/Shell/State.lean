/-
# The state of the shell scanner

Between calls the scanner remembers the open heredocs and, if an expansion has split an
extended glob, how many parentheses were open there.

A snapshot holds the depth of the glob as one byte, the number of heredocs as one byte,
and then the heredocs, outermost first. Each has one byte per mode and its delimiter
with the length of the delimiter in front.
-/

import ContextLexer.Scanner
import ContextLexer.Shell.Heredoc.Basic
import ContextLexer.Shell.Kind

namespace ContextLexer.Shell

open Snapshot

/-- The split glob and the open heredocs. -/
structure State where
  /-- The parentheses open where an expansion split a glob, and zero otherwise. -/
  globDepth : UInt8
  /-- The open heredocs, innermost first. -/
  heredocs : List Heredoc
  deriving DecidableEq, Repr

namespace State

/-- Nothing is open. -/
def initial : State := ⟨0, []⟩

/-- Open a heredoc inside the others. -/
def push (h : Heredoc) (s : State) : State := { s with heredocs := h :: s.heredocs }

/-! ## Snapshots -/

/-- Write one heredoc. -/
def writeHeredoc (h : Heredoc) : Write Unit := do
  putFlag h.raw
  putFlag h.started
  putFlag h.indented
  putSized "heredoc delimiter" (Utf8.encode h.delimiter)

/-- Write the depth of the glob and the heredocs. -/
def write (s : State) : Write Unit := do
  putByte s.globDepth
  putCount "heredoc" s.heredocs.length
  s.heredocs.reverse.forM writeHeredoc

/-- Read one heredoc. -/
def getHeredoc : Read Heredoc := do
  let raw ← getFlag
  let started ← getFlag
  let indented ← getFlag
  let delimiter ← getText
  return { raw, started, indented, delimiter }

/-- Fill in a number of heredocs. -/
def heredocFields : Nat → Load State Unit
  | 0 => return
  | count + 1 => do
    let h ← field getHeredoc
    fill (push h)
    heredocFields count

/-- Fill in the depth of the glob and then the heredocs. -/
def fields : Load State Unit := do
  let globDepth ← field getByte
  fill fun s => { s with globDepth }
  let count ← field getByte
  heredocFields count.toNat
  field expectEnd

/-- Take over the state that a snapshot tells of. -/
def load (bytes : List UInt8) : Loaded State :=
  if bytes = [] then ⟨initial, none⟩ else fields.run initial bytes

end State

end ContextLexer.Shell
