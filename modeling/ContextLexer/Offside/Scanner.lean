/-
# The layout scanner

A call hands out what has been decided on before, and otherwise looks at the next
line. Its width is the column of the first character that is neither a space nor a
line break. A line as wide as the innermost block ends the one before it, a wider line
opens a block, and a narrower line closes every block that is wider than itself. At
the end of the text the open blocks close one per call, and then a last newline is
handed out as often as it is asked for.
-/

import ContextLexer.Offside.State

namespace ContextLexer.Offside

/-- The characters between the significant ones: spaces, tabs and line breaks. -/
def isFiller (c : Char) : Bool := c = ' ' || c = '\t' || c = '\r' || c = '\n'

/-- The tokens that close a block. -/
def closing : List Kind := [.dedent, .newline]

/-- The width of a line whose first significant character is next; widths end at the
largest number of two bytes. -/
def widthAt (c : Cursor) : UInt16 := UInt16.ofNat (min c.column 65535)

namespace State

/-- Decide what the end of the text means. -/
def decideAtEnd (s : State) (accepted : Acceptance Kind) : State :=
  if .dedent ∈ accepted ∧ s.blocks ≠ [] then
    { s with blocks := s.blocks.tail, queue := closing }
  else if .newline ∈ accepted then { s with queue := [.newline] }
  else s

/-- Close the blocks that are wider than a line. The first of them may be reported at
once, and the others are owed. -/
def narrow (s : State) (accepted : Acceptance Kind) (width : UInt16) : State :=
  let kept := s.blocks.dropWhile (width < ·)
  let closed := s.blocks.length - kept.length
  if closed = 0 then s
  else if .dedent ∈ accepted then
    { s with blocks := kept, owed := s.owed + (closed - 1), queue := closing }
  else { s with blocks := kept, owed := s.owed + closed }

/-- Decide what a line of some width means, knowing whether a line feed precedes it. -/
def decideAtLine (s : State) (accepted : Acceptance Kind) (width : UInt16)
    (crossed : Bool) : State :=
  if width = s.innermost then
    if crossed ∧ .newline ∈ accepted then { s with queue := [.newline] } else s
  else if s.innermost < width then
    if .indent ∈ accepted then
      { s with blocks := width :: s.blocks, queue := [.indent] }
    else s
  else s.narrow accepted width

/-- Decide on the next tokens. An owed dedent comes first and needs no look at the text. -/
def decideNext (s : State) (accepted : Acceptance Kind) (c : Cursor) : State × Cursor :=
  if .dedent ∈ accepted ∧ 0 < s.owed then
    ({ s with owed := s.owed - 1, queue := closing }, c)
  else
    let line := c.ignoreWhile isFiller
    let crossed := (c.place.ahead.takeWhile isFiller).contains '\n'
    if line.atEnd then (s.decideAtEnd accepted, line)
    else (s.decideAtLine accepted (widthAt line) crossed, line)

/-- Hand out the token at the head of the queue. One that is not accepted is kept. -/
def handOut (s : State) (accepted : Acceptance Kind) (c : Cursor) : Verdict State Kind :=
  match s.queue with
  | [] => ⟨s, none⟩
  | kind :: queue =>
    if kind ∈ accepted then ⟨{ s with queue }, some (kind, c)⟩ else ⟨s, none⟩

/-- One call of the scanner. -/
def scan (s : State) (accepted : Acceptance Kind) (c : Cursor) : Verdict State Kind :=
  if s.queue = [] then
    let decided := s.decideNext accepted c
    decided.1.handOut accepted decided.2
  else s.handOut accepted c

end State

instance : Scanner State Kind where
  initial := State.initial
  scan := State.scan
  write := State.write
  load := State.load

end ContextLexer.Offside
