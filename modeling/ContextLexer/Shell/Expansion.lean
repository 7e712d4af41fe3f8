/-
# Inside expansions

The tokens that occur between the braces of an expansion: the operators in front of its
end, and the words that it falls back to.
-/

import ContextLexer.Automaton
import ContextLexer.CharClass
import ContextLexer.Shell.Resolver

namespace ContextLexer.Shell

/-! ## Operators -/

/-- The resolver for the operator of two hash signs, which a closing brace must not
follow. -/
def resolveDoubleHash (c : Cursor) : Ruling :=
  if c.sees '#' then
    let first := c.markEnd.consume
    if first.sees '#' then
      let second := first.consume
      if second.sees '}' then .pass second else .claim .doubleHash second.markEnd
    else .pass first
  else .pass c

/-- The kind of a symbol. -/
def symbolKind? (c : Char) : Option Kind :=
  if c = '#' then some .symbolHash
  else if c = '!' then some .symbolBang
  else if c = '=' then some .symbolEqual
  else none

/-- The resolver for symbols in front of the end of an expansion. More symbols and
whitespace may stand between the symbol and the closing brace. -/
def resolveSymbol (c : Cursor) : Ruling :=
  match symbolKind? c.lookahead with
  | none => .pass c
  | some kind =>
    let symbols := c.consume.markEnd.consumeWhile fun x => (symbolKind? x).isSome
    let after := symbols.ignoreWhile isSpace
    .claimIf (after.sees '}') kind after

/-! ## Words -/

/-- Whether a character after a dollar sign makes it the beginning of an expansion. -/
def beginsExpansion (c : Char) : Bool := c ∈ ['{', '(', '\''] || isAlphanumeric c

/-- A word being read. -/
structure ExpansionWord where
  /-- Where reading goes on. -/
  cursor : Cursor
  /-- Whether anything but whitespace has been read. -/
  solid : Bool
  /-- Whether whitespace has been read. -/
  spaced : Bool
  deriving DecidableEq, Repr

namespace ExpansionWord

/-- Claim the word under a condition. -/
def claimIf (condition : Bool) (c : Cursor) : Claim Kind :=
  if condition then some (.expansionWord, c) else none

/-- Read the next character, whatever it is. -/
def take (now : ExpansionWord) : ExpansionWord :=
  let space := isSpace now.cursor.lookahead
  ⟨now.cursor.consume, now.solid || !space, now.spaced || space⟩

/-- Read a dollar sign. It decides the word if an expansion begins with it: the word ends
in front of the expansion, if there is one. -/
def takeDollar (now : ExpansionWord) : Except (Claim Kind) ExpansionWord :=
  let after := now.cursor.markEnd.consume
  if beginsExpansion after.lookahead then throw (claimIf now.solid after)
  else return { now with cursor := after, solid := true }

/-- One turn of reading a group in parentheses at the beginning of a word. -/
def groupTurn (now : ExpansionWord) :
    Turn ExpansionWord (Except (Claim Kind) ExpansionWord) :=
  if now.cursor.sees ')' ∨ now.cursor.atEnd then .done (.ok now)
  else if now.cursor.sees '$' then
    match now.takeDollar with
    | .ok later => .again later
    | .error claim => .done (.error claim)
  else .again now.take

theorem remaining_takeDollar {now later : ExpansionWord}
    (h : now.takeDollar = .ok later) :
    later.cursor.remaining = now.cursor.remaining - 1 := by
  unfold takeDollar at h
  dsimp only at h
  split at h
  · cases h
  · cases h
    simp

theorem groupTurn_shrinks : Turn.Shrinks groupTurn (fun now => now.cursor.remaining) := by
  intro now later h
  show later.cursor.remaining < now.cursor.remaining
  unfold groupTurn at h
  split at h
  · cases h
  · next hend =>
    have hpos := Cursor.remaining_pos_of_not_atEnd (c := now.cursor) (by simp_all)
    split at h
    · split at h
      · next word htake =>
        cases h
        have := remaining_takeDollar htake
        omega
      · cases h
    · cases h
      simp only [take, Cursor.remaining_consume]
      omega

/-- Read a group in parentheses, whose opening parenthesis is next. There must be a
closing one, and something after it. -/
def takeGroup (now : ExpansionWord) : Except (Claim Kind) ExpansionWord := do
  let inside := { now with cursor := now.cursor.markEnd.consume }
  let closing ← Turn.run groupTurn (fun now => now.cursor.remaining) groupTurn_shrinks inside
  if !closing.cursor.sees ')' then throw none
  let after := closing.cursor.consume.markEnd
  if after.sees '}' then throw none
  return { closing with cursor := after, solid := true }

/-- Read a dollar sign, if it is next. -/
def pastDollar (now : ExpansionWord) : Except (Claim Kind) ExpansionWord :=
  if now.cursor.sees '$' then now.takeDollar else .ok now

/-- Read a group, which may only stand at the beginning of a word. -/
def pastGroup (now : ExpansionWord) : Except (Claim Kind) ExpansionWord :=
  if now.cursor.sees '(' ∧ !(now.solid || now.spaced) then now.takeGroup else .ok now

/-- Read a character and what it begins. Quotes decide that there is no word, and a
closing brace ends the word. -/
def advance (now : ExpansionWord) : Except (Claim Kind) ExpansionWord := do
  if now.cursor.sees '\"' then throw none
  let here ← now.pastDollar
  if here.cursor.sees '}' then
    throw (claimIf (here.solid || here.spaced) here.cursor.markEnd)
  let word ← here.pastGroup
  if word.cursor.sees '\'' || word.cursor.atEnd then throw none
  return word.take

/-- One turn of reading a word. -/
def turn (now : ExpansionWord) : Turn ExpansionWord (Claim Kind) :=
  match now.advance with
  | .ok later => .again later
  | .error claim => .done claim

theorem groupTurn_le (now : ExpansionWord) (result : Except (Claim Kind) ExpansionWord)
    (h : groupTurn now = .done result) :
    (result.toOption.map fun word => word.cursor.remaining).getD 0 ≤ now.cursor.remaining := by
  unfold groupTurn at h
  split at h
  · cases h
    exact Nat.le_refl _
  split at h
  · split at h
    · cases h
    · cases h
      exact Nat.zero_le _
  · cases h

theorem remaining_takeGroup_le {now later : ExpansionWord} (h : now.takeGroup = .ok later) :
    later.cursor.remaining ≤ now.cursor.remaining := by
  have hrun := @Turn.run_le _ _ _ _ groupTurn_shrinks
    (fun result => (result.toOption.map fun word => word.cursor.remaining).getD 0)
    groupTurn_le { now with cursor := now.cursor.markEnd.consume }
  unfold takeGroup at h
  dsimp only at h
  generalize hgroup : Turn.run groupTurn _ _ _ = group at h hrun
  cases group with
  | error claim => cases h
  | ok closing =>
    simp only [bind, Except.bind] at h
    split at h
    · cases h
    split at h
    · cases h
    · cases h
      simp [Except.toOption] at hrun ⊢
      omega

theorem remaining_take {now : ExpansionWord} (h : now.cursor.atEnd = false) :
    now.take.cursor.remaining < now.cursor.remaining := by
  have hpos := Cursor.remaining_pos_of_not_atEnd h
  simp only [take, Cursor.remaining_consume]
  omega

theorem remaining_pastDollar_le {now later : ExpansionWord}
    (h : now.pastDollar = .ok later) : later.cursor.remaining ≤ now.cursor.remaining := by
  unfold pastDollar at h
  split at h
  · have := remaining_takeDollar h
    omega
  · cases h
    exact Nat.le_refl _

theorem remaining_pastGroup_le {now later : ExpansionWord}
    (h : now.pastGroup = .ok later) : later.cursor.remaining ≤ now.cursor.remaining := by
  unfold pastGroup at h
  split at h
  · exact remaining_takeGroup_le h
  · cases h
    exact Nat.le_refl _

theorem remaining_advance_lt {now later : ExpansionWord} (h : now.advance = .ok later) :
    later.cursor.remaining < now.cursor.remaining := by
  unfold advance at h
  split at h
  · cases h
  cases hdollar : now.pastDollar with
  | error claim => simp [hdollar, bind, Except.bind] at h
  | ok here =>
    simp only [hdollar, bind, Except.bind] at h
    split at h
    · cases h
    cases hgroup : here.pastGroup with
    | error claim => simp [hgroup] at h
    | ok word =>
      simp only [hgroup] at h
      split at h
      · cases h
      · next hend =>
        cases h
        have h₁ := remaining_pastDollar_le hdollar
        have h₂ := remaining_pastGroup_le hgroup
        have h₃ := @remaining_take word (by simp_all)
        omega

theorem turn_shrinks : Turn.Shrinks turn (fun now => now.cursor.remaining) := by
  intro now later h
  unfold turn at h
  split at h
  · next word hadvance =>
    cases h
    exact remaining_advance_lt hadvance
  · cases h

end ExpansionWord

/-- The resolver for the words of an expansion. -/
def resolveExpansionWord (c : Cursor) : Ruling :=
  .ofClaim (Turn.run ExpansionWord.turn (fun now => now.cursor.remaining)
    ExpansionWord.turn_shrinks ⟨c, false, false⟩)

end ContextLexer.Shell
