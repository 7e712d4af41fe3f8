/-
# A host that drives a scanner

A host asks a scanner for a token at every place, with the acceptance sets of its
grammar in turn. Where the scanner declines, the host takes a word or a character
itself. It stops at the end of the text, once a call there neither claims a token nor
changes the scanner.
-/

import ContextLexer.CharClass
import ContextLexer.Scanner

namespace ContextLexer

/-- The place after a word, that is, the next whitespace or the end of the text. -/
def Place.skipWord (p : Place) : Place := p.skipWhile (!isSpace ·)

/-- How much a host takes at a time. -/
inductive Stride
  /-- A word, which is empty in front of whitespace. -/
  | word
  /-- One character. Here the host also helps on when tokens do not get ahead. -/
  | character
  deriving DecidableEq, Repr

/-- Where the host ends up when it takes a stride. -/
def Stride.advance : Stride → Place → Place
  | word, p => p.skipWord
  | character, p => p.next

/-- What happens to the scanner between two rounds. -/
inductive Resumption
  /-- Nothing. -/
  | straight
  /-- It is saved, and restored into itself. -/
  | restored
  /-- It is saved, and restored into a scanner that has just begun. -/
  | replaced
  deriving DecidableEq, Repr

/-- The scanner with which the next round is played. -/
def Resumption.resume {σ κ : Type} [DecidableEq κ] [Vocabulary κ] [Scanner σ κ] (state : σ) :
    Resumption → σ
  | straight => state
  | restored => Scanner.restore state (Scanner.snapshot state)
  | replaced => Scanner.restore Scanner.initial (Scanner.snapshot state)

/-- One round of a host: a call and what the host made of it. -/
structure Round (σ κ : Type) where
  /-- Where the call began. -/
  origin : Place
  /-- The token of the call, if there was one. -/
  token : Option (Token κ)
  /-- What the host took itself, if it did. -/
  taken : Option (List Char)
  /-- The state after the call, if the call changed it. -/
  changed : Option σ

/-- Where a host stands between two rounds. -/
structure Progress (σ : Type) where
  /-- The state of the scanner. -/
  state : σ
  /-- The place in the text. -/
  place : Place

namespace Host

variable {σ κ : Type} [DecidableEq σ] [DecidableEq κ] [Vocabulary κ] [Scanner σ κ]

/-- Play one round; the last component tells whether the host is done. -/
def round (stride : Stride) (resumption : Resumption) (accepted : Acceptance κ)
    (now : Progress σ) : Round σ κ × Progress σ × Bool :=
  let before := resumption.resume now.state
  let call := Scanner.call before accepted now.place
  let changed := if call.state = before then none else some call.state
  let stuck := call.token.isNone || call.place = now.place
  let finished := call.place.atEnd && (call.token.isNone || (stuck && changed.isNone))
  if !finished && (call.token.isNone || (stuck && stride = .character)) then
    let later := stride.advance call.place
    (⟨now.place, call.token, some (call.place.since later), changed⟩,
      ⟨call.state, later⟩, finished)
  else
    (⟨now.place, call.token, none, changed⟩, ⟨call.state, call.place⟩, finished)

/-- Play at most a number of rounds, with the acceptance sets in turn. The rounds played
so far are kept latest first. -/
def roundsFrom (stride : Stride) (resumption : Resumption) (sets : List (Acceptance κ)) :
    (limit : Nat) → (played : List (Round σ κ)) → (now : Progress σ) →
      List (Round σ κ) × Progress σ
  | 0, played, now => (played.reverse, now)
  | limit + 1, played, now =>
    let accepted := (sets[played.length % sets.length]?).getD Acceptance.empty
    match round stride resumption accepted now with
    | (latest, later, true) => ((latest :: played).reverse, later)
    | (latest, later, false) =>
      roundsFrom stride resumption sets limit (latest :: played) later

/-- Drive a scanner over a text for at most a number of rounds. -/
def drive (stride : Stride) (resumption : Resumption) (sets : List (Acceptance κ))
    (limit : Nat) (state : σ) (text : List Char) : List (Round σ κ) × Progress σ :=
  roundsFrom stride resumption sets limit [] ⟨state, Place.first text⟩

end Host

end ContextLexer
