/-
# Writing snapshots

A writer collects fields up to a fixed capacity. A field that does not fit is refused
and leaves what was written before untouched, so a host may go on with other fields.
Only a sized field is written in two parts, its length and then its bytes, and when
the bytes are refused the length stays.
-/

import ContextLexer.Snapshot.Error
import ContextLexer.Snapshot.LittleEndian
import ContextLexer.Utf8

namespace ContextLexer.Snapshot

/-- A snapshot being written. -/
structure Writer where
  /-- The most bytes that may be written. -/
  capacity : Nat
  /-- The bytes written so far. -/
  written : List UInt8
  deriving DecidableEq, Repr

/-- A step that appends to a snapshot, or refuses to. -/
abbrev Write := EStateM Error Writer

/-- Append bytes if all of them fit. -/
def putRaw (bytes : List UInt8) : Write Unit := do
  let writer ← get
  let needed := writer.written.length + bytes.length
  if writer.capacity < needed then throw (.overflow needed writer.capacity)
  set { writer with written := writer.written ++ bytes }

/-- Append one byte. -/
def putByte (byte : UInt8) : Write Unit := putRaw [byte]

/-- Append a truth value as one byte, zero or one. -/
def putFlag (flag : Bool) : Write Unit := putByte (if flag then 1 else 0)

/-- Append a number of two bytes. -/
def putWord16 (n : UInt16) : Write Unit := putRaw (littleEndian 2 n.toNat)

/-- Append a number of four bytes. -/
def putWord32 (n : UInt32) : Write Unit := putRaw (littleEndian 4 n.toNat)

/-- Append a count as one byte. The name says what is counted, should it be too large. -/
def putCount (what : String) (count : Nat) : Write Unit := do
  if 255 < count then throw (.countTooLarge what count 255)
  putByte (UInt8.ofNat count)

/-- Append bytes with their number in front, as four bytes. -/
def putSized (what : String) (bytes : List UInt8) : Write Unit := do
  if 4294967295 < bytes.length then
    throw (.countTooLarge what bytes.length 4294967295)
  putWord32 (UInt32.ofNat bytes.length)
  putRaw bytes

end ContextLexer.Snapshot
