/-
# Reading snapshots

A reader takes the fields of a snapshot in the order in which they were written. It
never looks past the end of the snapshot: a field that is not all there is reported,
and the reader stays in front of the part that is missing.
-/

import ContextLexer.Snapshot.Error
import ContextLexer.Snapshot.LittleEndian
import ContextLexer.Utf8

namespace ContextLexer.Snapshot

/-- A snapshot being read. -/
structure Reader where
  /-- The number of bytes read so far. -/
  offset : Nat
  /-- The bytes not yet read. -/
  rest : List UInt8
  deriving DecidableEq, Repr

/-- The reader at the beginning of a snapshot. -/
def Reader.begin (bytes : List UInt8) : Reader := ⟨0, bytes⟩

/-- The number of bytes not yet read. -/
def Reader.remaining (reader : Reader) : Nat := reader.rest.length

/-- A step that reads a field of a snapshot, or reports why it cannot. -/
abbrev Read := EStateM Error Reader

/-- Read a number of bytes. -/
def getBytes (count : Nat) : Read (List UInt8) := do
  let reader ← get
  if reader.remaining < count then
    throw (.truncated reader.offset count reader.remaining)
  set { offset := reader.offset + count, rest := reader.rest.drop count : Reader }
  return reader.rest.take count

/-- Read one byte. -/
def getByte : Read UInt8 := return UInt8.ofNat (ofLittleEndian (← getBytes 1))

/-- Read a truth value; every byte but zero means true. -/
def getFlag : Read Bool := return (← getByte) != 0

/-- Read a number of two bytes. -/
def getWord16 : Read UInt16 := return UInt16.ofNat (ofLittleEndian (← getBytes 2))

/-- Read a number of four bytes. -/
def getWord32 : Read UInt32 := return UInt32.ofNat (ofLittleEndian (← getBytes 4))

/-- Read bytes that have their number in front. -/
def getSized : Read (List UInt8) := do getBytes (← getWord32).toNat

/-- The text that bytes stand for; the offset is where the field of the text begins. -/
def asText (offset : Nat) (bytes : List UInt8) : Read (List Char) :=
  match Utf8.decode? bytes with
  | some text => pure text
  | none => throw (.invalidUtf8 offset)

/-- Read a text that has the number of its bytes in front. -/
def getText : Read (List Char) := do
  let reader ← get
  asText reader.offset (← getSized)

/-- Read all that is left as a text. -/
def getRestText : Read (List Char) := do
  let reader ← get
  asText reader.offset (← getBytes reader.remaining)

/-- Demand that nothing is left. -/
def expectEnd : Read Unit := do
  let reader ← get
  if reader.remaining ≠ 0 then throw (.trailingBytes reader.offset reader.remaining)

/-! ## Reading into a state -/

/-- A state being filled in from a snapshot. -/
structure Loading (σ : Type) where
  /-- The snapshot. -/
  input : Reader
  /-- The state, as far as it has been filled in. -/
  state : σ

/-- A step that reads from a snapshot and fills in a state. What has been filled in
before a failure stays. -/
abbrev Load (σ : Type) := EStateM Error (Loading σ)

/-- Read a field while filling in a state. -/
def field {σ α : Type} (read : Read α) : Load σ α := fun loading =>
  match read loading.input with
  | .ok value input => .ok value { loading with input }
  | .error error input => .error error { loading with input }

/-- Fill in a part of the state. -/
def fill {σ : Type} (change : σ → σ) : Load σ Unit :=
  modify fun loading => { loading with state := change loading.state }

/-- A state after an attempt to fill it in, and what went wrong, if anything. -/
structure Loaded (σ : Type) where
  /-- The state, filled in as far as the attempt came. -/
  state : σ
  /-- Why the attempt failed. -/
  failure : Option Error

/-- Fill in a state from the bytes of a snapshot. -/
def Load.run {σ : Type} (load : Load σ Unit) (state : σ) (bytes : List UInt8) : Loaded σ :=
  match load ⟨Reader.begin bytes, state⟩ with
  | .ok _ loading => ⟨loading.state, none⟩
  | .error error loading => ⟨loading.state, some error⟩

end ContextLexer.Snapshot
