/-
# Places in a text

A place is a point between two characters of a text. It is kept as the two parts
of the text that it separates, the passed one with the nearest character first,
so that looking at the next character and stepping over it cost nothing however
long the text is. Offsets and columns are read off the passed part when asked for.
-/

import ContextLexer.Utf8

namespace ContextLexer

/-- A point in a text: the characters before it, nearest first, and those after it. -/
structure Place where
  /-- The characters before the place, nearest first. -/
  passed : List Char
  /-- The characters after the place. -/
  ahead : List Char
  deriving DecidableEq, Repr, Inhabited

namespace Place

/-- The beginning of a text. -/
def first (text : List Char) : Place := ⟨[], text⟩

/-- The whole text that the place belongs to. -/
def text (p : Place) : List Char := p.passed.reverse ++ p.ahead

/-- Whether nothing follows the place. -/
def atEnd (p : Place) : Bool := p.ahead.isEmpty

/-- The next character; NUL stands for the end of the text. -/
def lookahead (p : Place) : Char := p.ahead.headD '\x00'

/-- The number of characters before the place. -/
def index (p : Place) : Nat := p.passed.length

/-- The number of characters after the place. -/
def remaining (p : Place) : Nat := p.ahead.length

/-- The number of bytes before the place. -/
def offset (p : Place) : Nat := Utf8.size p.passed

/-- The number of characters between the last line feed and the place. -/
def column (p : Place) : Nat := (p.passed.takeWhile (· ≠ '\n')).length

/-- Whether the place begins a line, which is to say that its column is zero. -/
def atLineStart (p : Place) : Bool :=
  match p.passed with
  | [] => true
  | c :: _ => c = '\n'

theorem atLineStart_iff (p : Place) : p.atLineStart = true ↔ p.column = 0 := by
  obtain ⟨passed, ahead⟩ := p
  cases passed with
  | nil => simp [atLineStart, column]
  | cons c passed => by_cases h : c = '\n' <;> simp [atLineStart, column, h]

/-- The place one character further on; the end of the text has none beyond it. -/
def next (p : Place) : Place :=
  match p.ahead with
  | [] => p
  | c :: ahead => ⟨c :: p.passed, ahead⟩

/-- The place a number of characters further on, or the end if there are fewer. -/
def skip : Nat → Place → Place
  | 0, p => p
  | n + 1, p => skip n p.next

/-- Move the characters at the front that satisfy a test over to the passed ones. -/
def splitWhile (test : Char → Bool) : List Char → List Char → Place
  | passed, [] => ⟨passed, []⟩
  | passed, c :: ahead =>
    if test c then splitWhile test (c :: passed) ahead else ⟨passed, c :: ahead⟩

/-- The first place at or after this one whose next character fails a test. -/
def skipWhile (test : Char → Bool) (p : Place) : Place :=
  splitWhile test p.passed p.ahead

/-- The characters between an earlier place and this one. -/
def since (earlier later : Place) : List Char :=
  (later.passed.take (later.index - earlier.index)).reverse

/-- Find the place that lies a number of bytes into the part ahead, if a character
begins or the text ends there. -/
def atBytes? (passed : List Char) : Nat → List Char → Option Place
  | 0, ahead => some ⟨passed, ahead⟩
  | _, [] => none
  | n, c :: ahead =>
    if c.utf8Size ≤ n then atBytes? (c :: passed) (n - c.utf8Size) ahead else none

/-- The place at a byte offset of a text, if a character begins or the text ends there. -/
def atOffset? (text : List Char) (offset : Nat) : Option Place := atBytes? [] offset text

/-- The characters between two byte offsets of a text, if both are places of it. -/
def slice? (text : List Char) (start stop : Nat) : Option (List Char) := do
  let start ← atOffset? text start
  let stop ← atOffset? text stop
  if start.index ≤ stop.index then some (start.since stop) else none

/-! ## Small facts -/

@[simp] theorem text_first (text : List Char) : (first text).text = text := rfl

@[simp] theorem text_next (p : Place) : p.next.text = p.text := by
  unfold next
  split <;> simp_all [text]

theorem next_of_atEnd {p : Place} (h : p.atEnd = true) : p.next = p := by
  obtain ⟨passed, ahead⟩ := p
  cases ahead <;> simp_all [atEnd, next]

theorem remaining_next (p : Place) : p.next.remaining = p.remaining - 1 := by
  obtain ⟨passed, ahead⟩ := p
  cases ahead <;> simp [next, remaining]

theorem remaining_pos {p : Place} (h : p.atEnd = false) : 0 < p.remaining := by
  obtain ⟨passed, ahead⟩ := p
  cases ahead <;> simp_all [atEnd, remaining]

/-- A next character other than NUL is a character of the text. -/
theorem atEnd_of_lookahead {p : Place} (h : p.lookahead ≠ '\x00') : p.atEnd = false := by
  obtain ⟨passed, ahead⟩ := p
  cases ahead <;> simp_all [atEnd, lookahead]

theorem text_splitWhile (test : Char → Bool) (passed ahead : List Char) :
    (splitWhile test passed ahead).text = passed.reverse ++ ahead := by
  induction ahead generalizing passed with
  | nil => rfl
  | cons c ahead ih =>
    unfold splitWhile
    split
    · rw [ih]; simp
    · rfl

@[simp] theorem text_skipWhile (test : Char → Bool) (p : Place) :
    (p.skipWhile test).text = p.text := text_splitWhile test p.passed p.ahead

theorem ahead_splitWhile (test : Char → Bool) (passed ahead : List Char) :
    (splitWhile test passed ahead).ahead = ahead.dropWhile test := by
  induction ahead generalizing passed with
  | nil => rfl
  | cons c ahead ih =>
    unfold splitWhile
    split <;> simp_all

theorem ahead_skipWhile (test : Char → Bool) (p : Place) :
    (p.skipWhile test).ahead = p.ahead.dropWhile test := ahead_splitWhile test _ _

theorem remaining_skipWhile_le (test : Char → Bool) (p : Place) :
    (p.skipWhile test).remaining ≤ p.remaining := by
  rw [remaining, ahead_skipWhile]
  exact (List.dropWhile_suffix test).length_le

end Place

end ContextLexer
