/-
# What a call of the scanner for delimited literals changes

A call declines, or it returns one of six kinds of tokens. Tags and closing quotes are
found where the call begins, the other tokens behind whitespace. What a call returns, and
what it makes of the state, is listed here once; nothing else can happen.
-/

import ContextLexer.Delimited.Scanner
import ContextLexer.Proofs.Delimited.Consuming

namespace ContextLexer.Delimited

/-- A place that only whitespace separates from an earlier one. -/
def BehindSpace (origin start : Place) : Prop :=
  ∃ gap, (∀ x ∈ gap, isSpace x = true) ∧ origin.Leads gap start

theorem BehindSpace.refl (origin : Place) : BehindSpace origin origin :=
  ⟨[], by simp, .nothing origin⟩

theorem behindSpace_skipWhile (origin : Place) :
    BehindSpace origin (origin.skipWhile isSpace) :=
  ⟨_, List.all_eq_true.mp List.all_takeWhile, origin.leads_skipWhile isSpace⟩

/-- The states that a call from a place can lead to, and the token that it returns there. -/
inductive Change (s : State) (accepted : Acceptance Kind) (origin : Place) :
    State → Option (Token Kind) → Prop
  /-- The call declines. -/
  | nothing : Change s accepted origin s none
  /-- A tag and a bar open a quoted string. -/
  | quotedOpening {tag : List Char} {stop : Place} (wanted : .quotedOpening ∈ accepted)
      (letters : ∀ x ∈ tag, isTagLetter x = true) (text : origin.Leads (tag ++ ['|']) stop) :
      Change s accepted origin ⟨true, tag⟩ (some ⟨.quotedOpening, origin, stop⟩)
  /-- A bar and the tag close the quoted string, in front of a brace. -/
  | quotedClosing {stop : Place} (wanted : .quotedClosing ∈ accepted)
      (text : origin.Leads ('|' :: s.tag) stop) (brace : stop.lookahead = '}') :
      Change s accepted origin .initial (some ⟨.quotedClosing, origin, stop⟩)
  /-- A double quote opens or closes an ordinary string. -/
  | stringQuote {start stop : Place} (wanted : .stringQuote ∈ accepted)
      (gap : BehindSpace origin start) (text : start.Leads ['\"'] stop) :
      Change s accepted origin { s with inString := !s.inString }
        (some ⟨.stringQuote, start, stop⟩)
  /-- A comment or a line directive stands outside of strings. -/
  | outside {kind : Kind} {start stop : Place} (either : kind = .comment ∨ kind = .lineDirective)
      (wanted : kind ∈ accepted) (outside : s.inString = false)
      (gap : BehindSpace origin start) (onward : start.Onward stop) :
      Change s accepted origin s (some ⟨kind, start, stop⟩)
  /-- A NUL stands in the text. -/
  | nul {start stop : Place} (wanted : .nul ∈ accepted) (gap : BehindSpace origin start)
      (text : start.Leads ['\x00'] stop) :
      Change s accepted origin s (some ⟨.nul, start, stop⟩)

/-- A verdict that is one of the changes. -/
def Changes (s : State) (accepted : Acceptance Kind) (origin : Place)
    (verdict : Verdict State Kind) : Prop :=
  Change s accepted origin verdict.state (settle origin verdict.claim).1

/-- What is claimed after consuming begins where this began. -/
theorem settle_of_consumes {origin start : Place} {text : List Char} {c : Cursor}
    (h : (Cursor.begin start).Consumes text c) (kind : Kind) :
    (settle origin (some (kind, c))).1 = some ⟨kind, start, c.place⟩ :=
  congrArg some (h.token_eq kind)

namespace State

variable {s : State} {accepted : Acceptance Kind} {origin start : Place}

theorem changes_beginQuoted (wanted : .quotedOpening ∈ accepted) :
    Changes s accepted origin (s.beginQuoted (.begin origin)) := by
  rw [beginQuoted]
  split
  case h_1 tag after htag =>
    obtain ⟨letters, hconsumes⟩ := consumes_readTag htag
    rw [Changes, settle_of_consumes hconsumes]
    exact .quotedOpening wanted letters hconsumes.leads
  case h_2 => exact .nothing

theorem changes_endQuoted (wanted : .quotedClosing ∈ accepted)
    (hbar : (Cursor.begin origin).sees '|' = true) :
    Changes s accepted origin (s.endQuoted (.begin origin)) := by
  rw [endQuoted]
  split
  case h_1 after htag =>
    obtain ⟨hmeets, hbrace⟩ := consumes_meetTag htag
    have hend := Cursor.atEnd_of_sees hbar (by decide)
    have hconsumes := (Cursor.Consumes.of_sees hbar hend).trans hmeets
    rw [Changes, settle_of_consumes hconsumes]
    exact .quotedClosing wanted hconsumes.leads hbrace
  case h_2 => exact .nothing

theorem changes_stringQuote (wanted : .stringQuote ∈ accepted) (gap : BehindSpace origin start)
    (hquote : (Cursor.begin start).sees '\"' = true) :
    Changes s accepted origin
      ⟨{ s with inString := !s.inString },
        some (.stringQuote, (Cursor.begin start).consume)⟩ := by
  have hconsumes := Cursor.Consumes.of_sees hquote (Cursor.atEnd_of_sees hquote (by decide))
  rw [Changes, settle_of_consumes hconsumes]
  exact .stringQuote wanted gap hconsumes.leads

/-- A comment or a line directive may be read in any way that only consumes. -/
theorem changes_outside {kind : Kind} {c : Cursor}
    (either : kind = .comment ∨ kind = .lineDirective) (wanted : kind ∈ accepted)
    (outside : s.inString = false) (gap : BehindSpace origin start)
    (h : (Cursor.begin start).GoesOn c) :
    Changes s accepted origin ⟨s, some (kind, c)⟩ := by
  obtain ⟨text, hconsumes⟩ := h
  rw [Changes, settle_of_consumes hconsumes]
  exact .outside either wanted outside gap ⟨text, hconsumes.leads⟩

theorem changes_scanSpaced (gap : BehindSpace origin start) :
    Changes s accepted origin (s.scanSpaced accepted (.begin start)) := by
  rw [scanSpaced]
  split
  case isTrue h =>
    obtain ⟨outside, wanted, -, -⟩ := h
    cases hdirective : lineDirective? (.begin start) with
    | none => exact .nothing
    | some after =>
        exact changes_outside (.inr rfl) wanted (by simpa using outside) gap
          (goesOn_lineDirective hdirective)
  split
  case isTrue h =>
    obtain ⟨outside, wanted, -⟩ := h
    have hread := (Cursor.GoesOn.consume (.begin start)).trans (goesOn_readComment _)
    split
    case h_1 after hcomment =>
      rw [hcomment] at hread
      exact changes_outside (.inl rfl) wanted (by simpa using outside) gap hread
    case h_2 => exact .nothing
  split
  case isTrue h =>
    obtain ⟨outside, wanted, hquote⟩ := h
    have hflip : true = !s.inString := by simpa using outside
    rw [hflip]
    exact changes_stringQuote wanted gap hquote
  split
  case isTrue h =>
    obtain ⟨wanted, hnul, hend⟩ := h
    have hconsumes := Cursor.Consumes.of_sees hnul (by simpa using hend)
    rw [Changes, settle_of_consumes hconsumes]
    exact .nul wanted gap hconsumes.leads
  case isFalse => exact .nothing

/-- A call makes one of the changes, whatever the text and the accepted kinds. -/
theorem changes_scan (s : State) (accepted : Acceptance Kind) (origin : Place) :
    Changes s accepted origin (s.scan accepted (.begin origin)) := by
  rw [scan]
  split
  case isTrue h => exact changes_beginQuoted h.1
  split
  case isTrue h => exact changes_endQuoted h.1 h.2
  split
  case isTrue h =>
    obtain ⟨inside, wanted, hquote⟩ := h
    have hflip : false = !s.inString := by simpa using inside
    rw [hflip]
    exact changes_stringQuote wanted (.refl origin) hquote
  case isFalse =>
    rw [Cursor.ignoreWhile_begin]
    exact changes_scanSpaced (behindSpace_skipWhile origin)

end State

/-- What a host sees of a call is one of the changes. -/
theorem change_call (s : State) (accepted : Acceptance Kind) (origin : Place) :
    Change s accepted origin (Scanner.call s accepted origin).state
      (Scanner.call s accepted origin).token :=
  s.changes_scan accepted origin

/-- The scanner as a machine. A call that declines leaves the state as it was. A call that
returns a token returns one of an accepted kind, with nothing but whitespace in front of
it. The opening of a quoted string stands where the call began and puts its tag into the
state; the closing stands there, repeats the tag in front of a brace, and puts the initial
state back; a double quote enters or leaves a string and keeps the tag. Comments and line
directives are found outside of strings only, and they and NUL characters keep the state. -/
theorem call_steps (s : State) (accepted : Acceptance Kind) (origin : Place) :
    let call := Scanner.call s accepted origin
    match call.token with
    | none => call.state = s
    | some token =>
      token.kind ∈ accepted ∧
      (∃ gap, (∀ x ∈ gap, isSpace x = true) ∧ origin.Leads gap token.start) ∧
      match token.kind with
      | .quotedOpening =>
        token.start = origin ∧
        ∃ tag, (∀ x ∈ tag, isLowercase x = true ∨ x = '_') ∧ token.text = tag ++ ['|'] ∧
          call.state = ⟨true, tag⟩
      | .quotedClosing =>
        token.start = origin ∧ token.text = '|' :: s.tag ∧ token.stop.lookahead = '}' ∧
        call.state = .initial
      | .stringQuote => token.text = ['\"'] ∧ call.state = ⟨!s.inString, s.tag⟩
      | .comment | .lineDirective => s.inString = false ∧ call.state = s
      | .nul => token.text = ['\x00'] ∧ call.state = s := by
  intro call
  have hchange := change_call s accepted origin
  change Change s accepted origin call.state call.token at hchange
  generalize call.state = later at hchange
  generalize call.token = token at hchange
  cases hchange with
  | nothing => rfl
  | quotedOpening wanted letters text =>
      have hletters : ∀ x ∈ _, isLowercase x = true ∨ x = '_' := fun x hx => by
        simpa [isTagLetter] using letters x hx
      exact ⟨wanted, BehindSpace.refl origin, rfl, _, hletters, text.since_eq, rfl⟩
  | quotedClosing wanted text brace =>
      exact ⟨wanted, BehindSpace.refl origin, rfl, text.since_eq, brace, rfl⟩
  | stringQuote wanted gap text => exact ⟨wanted, gap, text.since_eq, rfl⟩
  | outside either wanted outside gap onward =>
      refine ⟨wanted, gap, ?_⟩
      rcases either with rfl | rfl
      · exact ⟨outside, rfl⟩
      · exact ⟨outside, rfl⟩
  | nul wanted gap text => exact ⟨wanted, gap, text.since_eq, rfl⟩

end ContextLexer.Delimited
