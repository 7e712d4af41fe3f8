/-
# The scanner for delimited literals

The host parses the inside of strings itself and asks only for their quotes, so the
scanner remembers whether it is inside a string, and with which tag a quoted string
was opened. Tags and closing quotes count from the first character on; for all other
tokens the whitespace in front of them is ignored. Inside a string only its end and
NUL characters are found.

A snapshot holds one byte that tells whether a string is open, and then the tag.
-/

import ContextLexer.Delimited.Comment
import ContextLexer.Delimited.Kind
import ContextLexer.Delimited.LineDirective
import ContextLexer.Scanner

namespace ContextLexer.Delimited

open Snapshot

/-- Whether a string is open, and its tag. -/
structure State where
  /-- The host is inside a string of either sort. -/
  inString : Bool
  /-- The tag of the open quoted string; it is empty for ordinary strings. -/
  tag : List Char
  deriving DecidableEq, Repr

namespace State

/-- No string is open. -/
def initial : State := ⟨false, []⟩

/-- Look for the beginning of a quoted string. -/
def beginQuoted (s : State) (c : Cursor) : Verdict State Kind :=
  match readTag c with
  | (some tag, after) => ⟨⟨true, tag⟩, some (.quotedOpening, after)⟩
  | (none, _) => ⟨s, none⟩

/-- Look for the end of the open quoted string, whose bar is next. -/
def endQuoted (s : State) (c : Cursor) : Verdict State Kind :=
  match meetTag s.tag c.consume with
  | (true, after) => ⟨initial, some (.quotedClosing, after)⟩
  | (false, _) => ⟨s, none⟩

/-- Look for the tokens that may have whitespace in front of them. -/
def scanSpaced (s : State) (accepted : Acceptance Kind) (c : Cursor) : Verdict State Kind :=
  if !s.inString ∧ .lineDirective ∈ accepted ∧ c.sees '#' ∧ c.column = 0 then
    ⟨s, (lineDirective? c).map fun after => (.lineDirective, after)⟩
  else if !s.inString ∧ .comment ∈ accepted ∧ c.sees '(' then
    match readComment c.consume with
    | (true, after) => ⟨s, some (.comment, after)⟩
    | (false, _) => ⟨s, none⟩
  else if !s.inString ∧ .stringQuote ∈ accepted ∧ c.sees '\"' then
    ⟨{ s with inString := true }, some (.stringQuote, c.consume)⟩
  else if .nul ∈ accepted ∧ c.sees '\x00' ∧ !c.atEnd then
    ⟨s, some (.nul, c.consume)⟩
  else ⟨s, none⟩

/-- One call of the scanner. -/
def scan (s : State) (accepted : Acceptance Kind) (c : Cursor) : Verdict State Kind :=
  if .quotedOpening ∈ accepted ∧ beginsQuoted c.lookahead then s.beginQuoted c
  else if .quotedClosing ∈ accepted ∧ c.sees '|' then s.endQuoted c
  else if s.inString ∧ .stringQuote ∈ accepted ∧ c.sees '\"' then
    ⟨{ s with inString := false }, some (.stringQuote, c.consume)⟩
  else s.scanSpaced accepted (c.ignoreWhile isSpace)

/-! ## Snapshots -/

/-- Write whether a string is open, and its tag. -/
def write (s : State) : Write Unit := do
  putFlag s.inString
  putRaw (Utf8.encode s.tag)

/-- Fill in whether a string is open, and then its tag. -/
def fields : Load State Unit := do
  let inString ← field getFlag
  fill fun s => { s with inString }
  let tag ← field getRestText
  fill fun s => { s with tag }
  field expectEnd

/-- Take over the state that a snapshot tells of. -/
def load (bytes : List UInt8) : Loaded State :=
  if bytes = [] then ⟨initial, none⟩ else fields.run initial bytes

end State

instance : Scanner State Kind where
  initial := State.initial
  scan := State.scan
  write := State.write
  load _ bytes := State.load bytes

end ContextLexer.Delimited
