/-
# Expansions in the text of a body

A body scan watches for expansions, but not while it looks for the closing line: it passes
over whitespace and over a part of the delimiter without asking whether an expansion begins
there, and at the beginning of a line over the character at which the look fails. So the
text of a body can hold an expansion after all, but only at such a place, or behind
backslashes that follow one.
-/

import ContextLexer.Proofs.Shell.Change
import ContextLexer.Proofs.Shell.Heredoc.Calls
import ContextLexer.Proofs.Shell.Heredoc.Plain
import ContextLexer.Proofs.Shell.Heredoc.Watch

namespace ContextLexer.Shell

open PlainHeredoc (BeginsLine beginsLine_feed)

/-! ## Blind spots -/

/-- The texts along which a call looks for the delimiter. -/
inductive Looked (accepted : Accepted) (origin delimiter : List Char) : List Char → Prop
  /-- A line begins with whitespace and a part of the delimiter. -/
  | line {front blank met : List Char} (begins : BeginsLine front)
      (space : ∀ x ∈ blank, isSpace x = true) (part : met <+: delimiter) :
      Looked accepted origin delimiter (front ++ blank ++ met)
  /-- The call accepts the closing delimiter, and begins in front of a part of it. -/
  | call {met : List Char} (asked : .heredocEnd ∈ accepted) (part : met <+: delimiter) :
      Looked accepted origin delimiter (origin ++ met)

/-- The places where a call does not see an expansion: where it looks for the delimiter, and
behind backslashes that follow such a place. -/
def BlindSpot (accepted : Accepted) (origin delimiter text : List Char) : Prop :=
  ∃ looked escapes, text = looked ++ escapes ∧ Looked accepted origin delimiter looked ∧
    ∀ x ∈ escapes, x = '\\'

variable {accepted : Accepted} {origin delimiter : List Char}

theorem Looked.blindSpot {text : List Char} (h : Looked accepted origin delimiter text) :
    BlindSpot accepted origin delimiter text :=
  ⟨text, [], by simp, h, by simp⟩

theorem BlindSpot.slash (text : List Char) (h : BlindSpot accepted origin delimiter text) :
    BlindSpot accepted origin delimiter (text ++ ['\\']) := by
  obtain ⟨looked, escapes, rfl, hlooked, hescapes⟩ := h
  refine ⟨looked, escapes ++ ['\\'], by simp, hlooked, fun x hx => ?_⟩
  rcases List.mem_append.mp hx with hx | hx
  · exact hescapes x hx
  · exact List.mem_singleton.mp hx

/-! ## Turns -/

/-- A body scan of an interpolating heredoc that has watched the text so far. -/
structure Watching (accepted : Accepted) (origin delimiter : List Char) (now : Body) : Prop where
  passed : ∃ whole ahead, Passed (BlindSpot accepted origin delimiter) whole ahead now.cursor
  unmarked : now.advanced = false → now.cursor.mark = none
  raw : now.heredoc.raw = false
  delimiter : now.heredoc.delimiter = delimiter

/-- What a body scan finds shows no expansion, except at blind spots. -/
def Finding.Shows (accepted : Accepted) (origin delimiter : List Char) : Finding → Prop
  | .part _ c | .closing _ c => Shell.Shows (BlindSpot accepted origin delimiter) c
  | .nothing => True

/-- A result of a body scan that shows no expansion, except at blind spots. -/
def ShowsText (accepted : Accepted) (origin delimiter : List Char) (result : BodyResult) : Prop :=
  result.2.Shows accepted origin delimiter

variable {part : BodyPart} {now : Body} {h : Heredoc} {c : Cursor} {whole ahead : List Char}

theorem Watching.again (raw : h.raw = false) (hdelimiter : h.delimiter = delimiter)
    (passed : Passed (BlindSpot accepted origin delimiter) whole ahead c) :
    Watching accepted origin delimiter ⟨h, c, true⟩ :=
  ⟨⟨whole, ahead, passed⟩, nofun, raw, hdelimiter⟩

theorem dollarTurn_watches (watching : Watching accepted origin delimiter now)
    (passed : Passed (BlindSpot accepted origin delimiter) whole ('$' :: ahead) now.cursor) :
    (dollarTurn part now).LeadsTo (Watching accepted origin delimiter)
      (ShowsText accepted origin delimiter) := by
  rw [dollarTurn]
  dsimp only
  rw [if_neg (by simp [watching.raw])]
  split
  · have hdollar : (now.cursor.markEnd.consume).lookahead = ahead.headD '\x00' := by
      rw [Cursor.lookahead, Cursor.consume, Cursor.markEnd, passed.place_eq,
        Place.next_between_cons]
      rfl
    split
    · -- The part ends at the mark in front of the dollar sign.
      exact passed.markEnd.shows
    · next hexpands =>
      rw [hdollar] at hexpands
      exact .again watching.raw watching.delimiter (passed.markEnd.dollar hexpands)
  · split
    · exact passed.shows
    · trivial

/-- A look for the delimiter where a line begins, after some whitespace. -/
theorem look_passes {blank : List Char} (begins : BeginsLine whole)
    (space : ∀ x ∈ blank, isSpace x = true)
    (passed : Passed (BlindSpot accepted origin delimiter) (whole ++ blank) ahead c) :
    ∃ met rest, met <+: delimiter ∧
      Passed (BlindSpot accepted origin delimiter) (whole ++ blank ++ met) rest
        (meetDelimiter delimiter c).2 := by
  obtain ⟨met, rest, -, hmet, hpassed⟩ :=
    passed.meet (fun met hmet => (Looked.line begins space hmet).blindSpot) BlindSpot.slash
  exact ⟨met, rest, hmet, hpassed⟩

theorem shows_closingLine (kind : Kind) (h : Shows (BlindSpot accepted origin delimiter) c) :
    (closingLine kind c).Shows accepted origin delimiter := by
  rw [closingLine]
  split <;> exact h

theorem lineFeedTurn_watches (watching : Watching accepted origin delimiter now)
    (passed : Passed (BlindSpot accepted origin delimiter) whole ('\n' :: ahead) now.cursor) :
    (lineFeedTurn part now).LeadsTo (Watching accepted origin delimiter)
      (ShowsText accepted origin delimiter) := by
  rw [lineFeedTurn]
  generalize hline : (if now.advanced then now.cursor.consume else now.cursor.ignore) = line
  have hline : Passed (BlindSpot accepted origin delimiter) (whole ++ ['\n']) ahead line := by
    subst hline
    split
    · exact passed.text (by decide) (by decide)
    · next hadvanced => exact passed.ignore (watching.unmarked (by simpa using hadvanced))
  generalize htext :
    (if now.heredoc.indented then line.consumeWhile isSpace else line) = text
  have htext : ∃ blank rest, (∀ x ∈ blank, isSpace x = true) ∧
      Passed (BlindSpot accepted origin delimiter) (whole ++ ['\n'] ++ blank) rest text := by
    subst htext
    split
    · obtain ⟨blank, rest, -, hblank, hpassed⟩ := hline.spaces
      exact ⟨blank, rest, hblank, hpassed⟩
    · exact ⟨[], ahead, by simp, by simpa using hline⟩
  obtain ⟨blank, rest, hblank, htext⟩ := htext
  obtain ⟨met, rest, -, hlook⟩ := look_passes (beginsLine_feed whole) hblank htext.markEnd
  simp only [watching.delimiter]
  split
  · next after hafter =>
    rw [hafter] at hlook
    exact shows_closingLine _ hlook.shows
  · next after hafter =>
    rw [hafter] at hlook
    exact .again watching.raw watching.delimiter hlook

/-- A look for the delimiter at the beginning of a line passes over the character at which
it fails. -/
theorem look_watches {blank : List Char} {kind : Kind}
    (watching : Watching accepted origin delimiter now) (begins : BeginsLine whole)
    (space : ∀ x ∈ blank, isSpace x = true)
    (passed : Passed (BlindSpot accepted origin delimiter) (whole ++ blank) ahead c) :
    (match meetDelimiter delimiter c with
      | (true, after) => Turn.done (now.heredoc, Finding.part kind after)
      | (false, after) => Turn.again (Body.mk now.heredoc after.consume true)).LeadsTo
        (Watching accepted origin delimiter) (ShowsText accepted origin delimiter) := by
  obtain ⟨met, rest, hmet, hlook⟩ := look_passes begins space passed
  split
  · next after hafter =>
    rw [hafter] at hlook
    exact hlook.shows
  · next after hafter =>
    rw [hafter] at hlook
    obtain ⟨whole, ahead, hpassed⟩ :=
      hlook.pass (Looked.line begins space hmet).blindSpot BlindSpot.slash
    exact .again watching.raw watching.delimiter hpassed

theorem textTurn_watches {x : Char} (watching : Watching accepted origin delimiter now)
    (passed : Passed (BlindSpot accepted origin delimiter) whole (x :: ahead) now.cursor)
    (hdollar : x ≠ '$') (hslash : x ≠ '\\') :
    (textTurn part now).LeadsTo (Watching accepted origin delimiter)
      (ShowsText accepted origin delimiter) := by
  rw [textTurn]
  split
  · next hstart =>
    have hbegins : BeginsLine whole := by
      rw [passed.place_eq, Place.atLineStart_between] at hstart
      exact hstart
    generalize htext : (if now.advanced then now.cursor.consumeWhile isSpace
      else now.cursor.ignoreWhile isSpace) = text
    have htext : ∃ blank rest, (∀ x ∈ blank, isSpace x = true) ∧
        Passed (BlindSpot accepted origin delimiter) (whole ++ blank) rest text := by
      subst htext
      split
      · obtain ⟨blank, rest, -, hblank, hpassed⟩ := passed.spaces
        exact ⟨blank, rest, hblank, hpassed⟩
      · next hadvanced =>
        obtain ⟨blank, rest, -, hblank, hpassed⟩ :=
          passed.ignoreSpaces (watching.unmarked (by simpa using hadvanced))
        exact ⟨blank, rest, hblank, hpassed⟩
    obtain ⟨blank, rest, hblank, htext⟩ := htext
    simp only [watching.delimiter]
    cases part with
    | trailing => exact look_watches watching hbegins hblank htext
    | leading => exact look_watches watching hbegins hblank htext.markEnd
  · exact .again watching.raw watching.delimiter (passed.text hdollar hslash)

theorem bodyTurn_watches (watching : Watching accepted origin delimiter now) :
    (bodyTurn part now).LeadsTo (Watching accepted origin delimiter)
      (ShowsText accepted origin delimiter) := by
  obtain ⟨whole, ahead, hpassed⟩ := watching.passed
  rw [bodyTurn]
  split
  · split
    · exact hpassed.shows
    · trivial
  next hnul =>
  obtain ⟨rest, rfl⟩ := hpassed.exists_cons hnul
  split
  · next hx =>
    rw [hx] at hpassed
    obtain ⟨whole, ahead, hescape⟩ := hpassed.escape BlindSpot.slash
    exact .again watching.raw watching.delimiter hescape
  next hslash =>
  split
  · next hx =>
    rw [hx] at hpassed
    exact dollarTurn_watches watching hpassed
  next hdollar =>
  split
  · next hx =>
    rw [hx] at hpassed
    exact lineFeedTurn_watches watching hpassed
  · exact textTurn_watches watching hpassed hdollar hslash

/-- A body scan shows no expansion, except at blind spots. -/
theorem readBody_shows (raw : h.raw = false) (unmarked : c.mark = none)
    (passed : Passed (BlindSpot accepted origin h.delimiter) whole ahead c) :
    ShowsText accepted origin h.delimiter (readBody part h c) :=
  Turn.run_of_leadsTo (Watching accepted origin h.delimiter) (fun _ => bodyTurn_watches)
    ⟨⟨whole, ahead, passed⟩, fun _ => unmarked, raw, rfl⟩

/-! ## Calls -/

variable {s : State} {outer : List Heredoc} {kind : Kind} {d : Cursor}

/-- A resolver for a part of the innermost heredoc decides the call, and what it claims shows
no expansion, except at blind spots. -/
theorem shows_of_part (part : BodyPart) {back : List Resolver} (inner : s.heredocs = h :: outer)
    (raw : h.raw = false) (asked : part.resolver.asked s accepted) (unmarked : c.mark = none)
    (passed : Passed (BlindSpot accepted origin h.delimiter) whole ahead c)
    (claims : (walk accepted (part.resolver :: back) none s c).claim = some (kind, d)) :
    Shows (BlindSpot accepted origin h.delimiter) d := by
  have hshows : ShowsText accepted origin h.delimiter (readBody part h c) :=
    readBody_shows raw unmarked passed
  have hrun : part.resolver.run s accepted c =
      s.afterBody accepted outer (readBody part h c) := by
    rw [← State.readBody_of_cons inner]
    cases part <;> rfl
  have hclaim : (part.resolver.run s accepted c).2 = .claim kind d := by
    refine run_of_walk asked ?_ claims
    rw [hrun]
    exact State.decides_afterBody outer _
  rw [hrun] at hclaim
  rw [ShowsText] at hshows
  rcases State.found_of_afterBody hclaim with hfound | hfound
  · rw [hfound] at hshows
    exact hshows
  · rw [hfound] at hshows
    exact hshows

/-- A walk over the last of these resolvers. -/
theorem shows_of_content (inner : s.heredocs = h :: outer) (raw : h.raw = false)
    (unmarked : c.mark = none)
    (passed : Passed (BlindSpot accepted origin h.delimiter) whole ahead c)
    (claims : (walk accepted [.heredocContent] none s c).claim = some (kind, d)) :
    Shows (BlindSpot accepted origin h.delimiter) d := by
  by_cases hasked : Resolver.heredocContent.asked s accepted
  · exact shows_of_part .trailing inner raw hasked unmarked passed claims
  · rw [walk_of_not_asked _ hasked] at claims
    cases claims

/-- The delimiter is looked for where the call begins, and the body is scanned from where
that look failed. -/
theorem shows_of_end {p : Place} (inner : s.heredocs = h :: outer) (raw : h.raw = false)
    (other : kind ≠ .heredocEnd)
    (claims : (walk accepted [.heredocEnd, .heredocContent] none s (.begin p)).claim =
      some (kind, d)) : Shows (BlindSpot accepted p.before h.delimiter) d := by
  by_cases hasked : Resolver.heredocEnd.asked s accepted
  · have hbegin : Passed (BlindSpot accepted p.before h.delimiter) p.before p.ahead (.begin p) :=
      .begin p
    obtain ⟨met, rest, -, -, hlook⟩ := hbegin.meet
      (fun met hmet => (Looked.call hasked.1 hmet).blindSpot) BlindSpot.slash
    have hmark := mark_meetDelimiter h.delimiter (.begin p)
    have hrun : Resolver.heredocEnd.run s accepted (.begin p) = s.closeHeredoc (.begin p) := rfl
    rw [State.closeHeredoc, inner] at hrun
    dsimp only at hrun
    split at hrun
    · next after _ =>
      rw [walk_of_claim _ hasked hrun ⟨rfl, hasked.1⟩] at claims
      cases claims
      exact absurd rfl other
    · next after hafter =>
      rw [walk_of_pass _ hasked hrun] at claims
      rw [hafter] at hlook hmark
      exact shows_of_content inner raw hmark hlook claims
  · rw [walk_of_not_asked _ hasked] at claims
    exact shows_of_content inner raw rfl (.begin p) claims

theorem shows_of_scan {p : Place} (inner : s.heredocs = h :: outer) (raw : h.raw = false)
    (drawn : ∀ kind ∈ accepted, kind ∈ bodyKinds) (other : kind ≠ .heredocEnd)
    (claims : (s.scan accepted (.begin p)).claim = some (kind, d)) :
    Shows (BlindSpot accepted p.before h.delimiter) d := by
  rw [scan_of_drawn drawn, bodyResolvers] at claims
  by_cases hasked : Resolver.heredocBody.asked s accepted
  · exact shows_of_part .leading inner raw hasked rfl (.begin p) claims
  · rw [walk_of_not_asked _ hasked] at claims
    exact shows_of_end inner raw other claims

/-- An expansion in the text of a token of an interpolating heredoc stands at a blind spot:
where the call looked for the delimiter, or behind backslashes that follow such a place. -/
theorem expansion_in_text_at_blind_spot {p : Place} {token : Token Kind} {front back : List Char}
    (inner : s.heredocs = h :: outer) (raw : h.raw = false)
    (drawn : ∀ kind ∈ accepted, kind ∈ bodyKinds)
    (emitted : (Scanner.call s accepted p).token = some token) (other : token.kind ≠ .heredocEnd)
    (text : token.text = front ++ '$' :: back) (unescaped : Unescaped front)
    (expands : Expands (back ++ token.stop.ahead)) :
    BlindSpot accepted p.before h.delimiter (token.start.before ++ front) := by
  rw [Scanner.call] at emitted
  cases hclaim : (s.scan accepted (.begin p)).claim with
  | none =>
      have hnone : (settle p (s.scan accepted (.begin p)).claim).1 = some token := emitted
      rw [hclaim] at hnone
      cases hnone
  | some found =>
      obtain ⟨kind, d⟩ := found
      have hsome : (settle p (s.scan accepted (.begin p)).claim).1 = some token := emitted
      rw [hclaim] at hsome
      obtain rfl : d.token kind = token := Option.some.inj hsome
      have hshows := shows_of_scan inner raw drawn other hclaim
      exact hshows.token kind front back text unescaped expands

/-- A body with an expansion behind whitespace is claimed as one without expansions. -/
theorem expansion_behind_whitespace_in_text :
    (Scanner.call (State.initial.push (default : PlainHeredoc).context)
        (.ofList [.heredocBody, .heredocOpening])
        (.first ['\n', ' ', ' ', '$', 'x', '\n', 'A'])).token.map
        (fun token => (token.kind, token.text)) =
      some (.heredocBody, [' ', ' ', '$', 'x', '\n']) := by
  decide

/-- That expansion stands at a blind spot, which is the end of its whitespace. -/
theorem expansion_behind_whitespace_at_blind_spot :
    ∃ token, (Scanner.call (State.initial.push (default : PlainHeredoc).context)
        (.ofList [.heredocBody, .heredocOpening])
        (.first ['\n', ' ', ' ', '$', 'x', '\n', 'A'])).token = some token ∧
      token.text = [' ', ' '] ++ '$' :: ['x', '\n'] ∧
      BlindSpot (.ofList [.heredocBody, .heredocOpening]) [] ['A']
        (token.start.before ++ [' ', ' ']) := by
  have hdrawn : ∀ kind ∈ (.ofList [.heredocBody, .heredocOpening] : Accepted),
      kind ∈ bodyKinds := by
    simp [bodyKinds]
  let token : Token Kind := ⟨.heredocBody, .between ['\n'] [' ', ' ', '$', 'x', '\n', 'A'],
    .between ['\n', ' ', ' ', '$', 'x', '\n'] ['A']⟩
  have hemitted : (Scanner.call (State.initial.push (default : PlainHeredoc).context)
      (.ofList [.heredocBody, .heredocOpening])
      (.first ['\n', ' ', ' ', '$', 'x', '\n', 'A'])).token = some token := by
    decide
  have hinner : (State.initial.push (default : PlainHeredoc).context).heredocs =
      [(default : PlainHeredoc).context] := rfl
  have htext : token.text = [' ', ' '] ++ '$' :: ['x', '\n'] := by decide
  have hescaped : Unescaped [' ', ' '] := rfl
  have hexpands : Expands (['x', '\n'] ++ token.stop.ahead) := rfl
  exact ⟨token, hemitted, htext, expansion_in_text_at_blind_spot hinner rfl hdrawn hemitted
    (by decide) htext hescaped hexpands⟩

end ContextLexer.Shell
