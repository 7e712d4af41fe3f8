/-
# Loops of the shell resolvers

Seven resolvers read in loops. Whatever the next character is, a turn either ends the loop or
takes the cursor further, although some turns consume only as a side effect, such as those
that look for a delimiter, and some take a character along without knowing that there is one.
A loop for regexes owes this to its style. A turn without a style would count the next
character and leave it where it is.
-/

import ContextLexer.Proofs.Iterations
import ContextLexer.Proofs.Shell.Pattern
import ContextLexer.Shell.Concatenation
import ContextLexer.Shell.Expansion
import ContextLexer.Shell.ExtendedGlob
import ContextLexer.Shell.Heredoc.Body
import ContextLexer.Shell.Heredoc.Word
import ContextLexer.Shell.Name
import ContextLexer.Shell.Regex

namespace ContextLexer.Shell

open Place (Onward)
open Turn (Progresses Stops)

/-! ## Regexes -/

theorem onward_bracedTurn (now : Regex) :
    (bracedTurn now).LeadsOnward now.cursor Regex.cursor := by
  have hone : now.cursor.place.Onward now.cursor.consume.place := .next _
  rw [bracedTurn]
  exact Cursor.onward_ite hone hone

theorem onward_slashedTurn (now : Regex) :
    (slashedTurn now).LeadsOnward now.cursor Regex.cursor := by
  have hone : now.cursor.place.Onward now.cursor.consume.place := .next _
  rw [slashedTurn]
  dsimp only
  split
  · trivial
  split
  · split
    · exact hone
    · exact hone.trans (.next _)
  · exact Cursor.onward_ite hone hone

theorem onward_spacedTurn (now : Regex) :
    (spacedTurn now).LeadsOnward now.cursor Regex.cursor := by
  have hone : now.cursor.place.Onward now.cursor.consume.place := .next _
  rw [spacedTurn]
  dsimp only
  split
  · exact hone.trans (.next _)
  split
  · split
    · trivial
    split
    · trivial
    · exact hone
  split
  · trivial
  · exact hone

theorem progresses_regex (style : RegexStyle) (kind : Kind) :
    Progresses (regexTurn style kind) Regex.cursor := by
  apply Progresses.of_leadsOnward (regexTurn_shrinks style kind)
  intro now
  rw [regexTurn]
  split
  · trivial
  split
  · trivial
  · next groups _ =>
    cases style with
    | braced => exact onward_bracedTurn { now with groups }
    | slashed => exact onward_slashedTurn { now with groups }
    | spaced => exact onward_spacedTurn { now with groups }

/-- The style of a regex, if the host accepts regexes of any style. -/
def regexStyle? (accepted : Accepted) : Option RegexStyle :=
  if .regex ∈ accepted then some .braced
  else if .regexNoSlash ∈ accepted then some .slashed
  else if .regexNoSpace ∈ accepted then some .spaced
  else none

/-- One turn of reading a regex of some style or of none. Without a style, nothing is done with
a character that has been counted. -/
def styledTurn (style : Option RegexStyle) (kind : Kind) (now : Regex) :
    Turn Regex (Claim Kind) :=
  match style with
  | some style => regexTurn style kind now
  | none =>
    if now.cursor.sees '\x00' then .done none
    else
      match now.groups.count now.cursor.lookahead with
      | none => .done (some (kind, now.cursor))
      | some groups => .again { now with groups }

theorem regexStyle?_eq {accepted : Accepted}
    (h : .regex ∈ accepted ∨ .regexNoSlash ∈ accepted ∨ .regexNoSpace ∈ accepted) :
    regexStyle? accepted = some (regexStyle accepted) := by
  rw [regexStyle?, regexStyle]
  split
  · rfl
  split
  · rfl
  · next hregex hslash =>
    rw [if_pos ((h.resolve_left hregex).resolve_left hslash)]

theorem regexStyle?_eq_none {accepted : Accepted}
    (h : ¬ (.regex ∈ accepted ∨ .regexNoSlash ∈ accepted ∨ .regexNoSpace ∈ accepted)) :
    regexStyle? accepted = none := by
  simp only [not_or] at h
  obtain ⟨hbraced, hslashed, hspaced⟩ := h
  rw [regexStyle?, if_neg hbraced, if_neg hslashed, if_neg hspaced]

/-- A loop without a style stays at a character that ends no regex, for ever. -/
theorem not_stops_styledTurn_none {now : Regex} (kind : Kind)
    (h : now.cursor.lookahead ∉ ['\x00', ')', ']', '}']) :
    ¬ ∃ n result, Stops (styledTurn none kind) now n result := by
  apply Turn.not_stops_of_invariant (fun state => state.cursor = now.cursor) _ rfl
  intro state hstate
  simp only [List.mem_cons, List.not_mem_nil, or_false, not_or] at h
  obtain ⟨hnul, hparen, hbracket, hbrace⟩ := h
  have hcount : state.groups.count now.cursor.lookahead ≠ none := by
    rw [Ne, Groups.count_eq_none_iff]
    simp [Groups.Unopened, hparen, hbracket, hbrace]
  obtain ⟨groups, hgroups⟩ := Option.ne_none_iff_exists'.mp hcount
  refine ⟨{ state with groups }, ?_, hstate⟩
  simp [styledTurn, hstate, hgroups, Cursor.sees, hnul]

/-! ## Globs -/

theorem onward_skipGlobCharacter (c : Cursor) : c.place.Onward (skipGlobCharacter c).place := by
  have hone : c.place.Onward c.consume.place := .next _
  rw [skipGlobCharacter]
  split
  · exact hone.trans (.next _)
  · exact hone

theorem progresses_glob (depth : UInt8) : Progresses (globTurn depth) Glob.cursor := by
  apply Progresses.of_leadsOnward (globTurn_shrinks depth)
  intro now
  rw [globTurn]
  split
  · trivial
  split
  · trivial
  generalize hhere : (if now.cursor.lookahead = '$' then now.cursor.markEnd.consume
    else now.cursor) = here
  have honward : now.cursor.place.Onward here.place := by
    subst hhere
    exact Cursor.onward_ite (.next _) (.refl _)
  dsimp only
  split
  · trivial
  split
  · trivial
  · exact honward.trans (onward_skipGlobCharacter here)

/-! ## Heredocs -/

theorem onward_meetDelimiter (word : List Char) (c : Cursor) :
    c.place.Onward (meetDelimiter word c).2.place := by
  induction word generalizing c with
  | nil => exact .refl _
  | cons x word ih =>
      rw [meetDelimiter]
      split
      · exact .refl _
      · exact (Onward.next c.place).trans (ih c.consume)

theorem onward_dollarTurn (part : BodyPart) (now : Body) :
    (dollarTurn part now).LeadsOnward now.cursor Body.cursor := by
  have hone : now.cursor.place.Onward now.cursor.consume.place := .next _
  rw [dollarTurn]
  dsimp only
  split
  · exact hone
  split
  · split
    · trivial
    · exact hone
  split
  · trivial
  · trivial

theorem onward_lineFeedTurn (part : BodyPart) (now : Body) :
    (lineFeedTurn part now).LeadsOnward now.cursor Body.cursor := by
  rw [lineFeedTurn]
  generalize hline : (if now.advanced then now.cursor.consume else now.cursor.ignore) = line
  have honward : now.cursor.place.Onward line.place := by
    subst hline
    exact Cursor.onward_ite (.next _) now.cursor.onward_ignore
  generalize htext :
    (if now.heredoc.indented then line.consumeWhile isSpace else line) = text
  have hspace : line.place.Onward text.place := by
    subst htext
    exact Cursor.onward_ite (.skipWhile isSpace _) (.refl _)
  have hmeet := onward_meetDelimiter now.heredoc.delimiter text.markEnd
  split
  · trivial
  · next after hafter =>
    rw [hafter] at hmeet
    exact (honward.trans hspace).trans hmeet

theorem onward_textTurn (part : BodyPart) (now : Body) :
    (textTurn part now).LeadsOnward now.cursor Body.cursor := by
  rw [textTurn]
  dsimp only
  split
  · generalize htext : (if now.advanced then now.cursor.consumeWhile isSpace
      else now.cursor.ignoreWhile isSpace) = text
    have hspace : now.cursor.place.Onward text.place := by
      subst htext
      exact Cursor.onward_ite (.skipWhile isSpace _) (now.cursor.onward_ignoreWhile isSpace)
    have hmeet (c : Cursor) (hc : c.place = text.place) :
        now.cursor.place.Onward (meetDelimiter now.heredoc.delimiter c).2.consume.place := by
      have hword := onward_meetDelimiter now.heredoc.delimiter c
      rw [hc] at hword
      exact (hspace.trans hword).trans (.next _)
    cases part with
    | trailing =>
        have hmeet := hmeet text rfl
        dsimp only
        split
        · trivial
        · next after hafter =>
          rw [hafter] at hmeet
          exact hmeet
    | leading =>
        have hmeet := hmeet text.markEnd rfl
        dsimp only
        split
        · trivial
        · next after hafter =>
          rw [hafter] at hmeet
          exact hmeet
  · exact Onward.next now.cursor.place

theorem progresses_body (part : BodyPart) : Progresses (bodyTurn part) Body.cursor := by
  apply Progresses.of_leadsOnward (bodyTurn_shrinks part)
  intro now
  rw [bodyTurn]
  split
  · split
    · trivial
    · trivial
  split
  · exact (Onward.next now.cursor.place).trans (.next _)
  split
  · exact onward_dollarTurn part now
  split
  · exact onward_lineFeedTurn part now
  · exact onward_textTurn part now

theorem progresses_word (quote : Option Char) : Progresses (wordTurn quote) PartialWord.cursor := by
  apply Progresses.of_leadsOnward (wordTurn_shrinks quote)
  intro now
  rw [wordTurn]
  split
  · trivial
  generalize hshown :
    (if now.cursor.sees '\\' then now.cursor.consume else now.cursor) = shown
  have honward : now.cursor.place.Onward shown.place := by
    subst hshown
    exact Cursor.onward_ite (.next _) (.refl _)
  dsimp only
  split
  · trivial
  · exact honward.trans (.next _)

/-! ## Names -/

theorem progresses_filler (accepted : Accepted) : Progresses (fillerTurn accepted) id := by
  apply Progresses.of_leadsOnward (fillerTurn_shrinks accepted)
  intro c
  rw [fillerTurn]
  split
  · exact c.onward_ignore
  split
  · dsimp only
    split
    · trivial
    generalize hline : (if c.ignore.sees '\r' then c.ignore.ignore else c.ignore) = line
    have honward : c.place.Onward line.place := by
      subst hline
      exact Cursor.onward_ite (c.onward_ignore.trans c.ignore.onward_ignore) c.onward_ignore
    split
    · exact honward.trans line.onward_ignore
    split
    · trivial
    · trivial
  · trivial

/-- A name being read: where, and whether nothing but digits has been read. -/
abbrev PartialName := Cursor × Bool

/-- One turn of reading a name character by character. -/
def nameTurn (now : PartialName) : Turn PartialName PartialName :=
  if now.1.lookahead.isDigit then .again (now.1.consume, now.2)
  else if isLetter now.1.lookahead || now.1.lookahead = '_' then .again (now.1.consume, false)
  else .done now

/-- Digits are told from other name characters only by what is remembered. -/
theorem nameTurn_eq (now : PartialName) :
    nameTurn now =
      if now.1.passes isNameCharacter then
        .again (now.1.consume, now.2 && now.1.lookahead.isDigit)
      else .done now := by
  have hnul : isNameCharacter '\x00' = false := by decide
  have hpasses : now.1.passes isNameCharacter = isNameCharacter now.1.lookahead :=
    Cursor.passes_eq_of_nul hnul now.1
  rw [nameTurn, hpasses, isNameCharacter]
  by_cases hdigit : now.1.lookahead.isDigit = true
  · simp [hdigit]
  · simp [hdigit]

theorem progresses_name : Progresses nameTurn Prod.fst := by
  apply Progresses.of_leadsOnward
  · intro now later h
    rw [nameTurn_eq] at h
    split at h
    · next hpasses =>
      cases h
      exact (Cursor.advances_iff.mp (Cursor.advances_consume (Cursor.atEnd_of_passes hpasses))).2
    · cases h
  · intro now
    rw [nameTurn_eq]
    split
    · exact Onward.next now.1.place
    · trivial

/-- Character by character, the loop comes to the end of the run of name characters, and
remembers whether all of them are digits. -/
theorem stops_nameTurn (c : Cursor) (digits : Bool) :
    ∃ n, Stops nameTurn (c, digits) n
      (c.consumeWhile isNameCharacter,
        digits && (c.place.ahead.takeWhile isNameCharacter).all Char.isDigit) := by
  induction hahead : c.place.ahead generalizing c digits with
  | nil =>
      have hend : c.atEnd = true := by rw [Cursor.atEnd, Place.atEnd, hahead]; rfl
      have hpasses : c.passes isNameCharacter = false := c.passes_eq_false_of_atEnd _ hend
      refine ⟨1, .done ?_⟩
      rw [nameTurn_eq, hpasses, Cursor.consumeWhile_of_not_passes hpasses]
      simp
  | cons x rest ih =>
      have hrest : c.consume.place.ahead = rest := (Cursor.Consumes.next_of_ahead hahead).2
      have hx : c.lookahead = x := by rw [Cursor.lookahead, Place.lookahead, hahead]; rfl
      have hend : c.atEnd = false := by rw [Cursor.atEnd, Place.atEnd, hahead]; rfl
      by_cases hname : isNameCharacter x = true
      · have hpasses : c.passes isNameCharacter = true := by simp [Cursor.passes, hx, hname, hend]
        have hagain : nameTurn (c, digits) = .again (c.consume, digits && x.isDigit) := by
          rw [nameTurn_eq, if_pos hpasses, hx]
        obtain ⟨n, hstops⟩ := ih c.consume (digits && x.isDigit) hrest
        refine ⟨n + 1, .again hagain ?_⟩
        rw [Cursor.consumeWhile_consume hpasses, Bool.and_assoc] at hstops
        rwa [List.takeWhile_cons_of_pos hname, List.all_cons]
      · have hpasses : c.passes isNameCharacter = false := by simp [Cursor.passes, hx, hname]
        refine ⟨1, .done ?_⟩
        rw [nameTurn_eq, hpasses, Cursor.consumeWhile_of_not_passes hpasses]
        simp [hname]

/-! ## Words of expansions -/

namespace ExpansionWord

/-- A step that does not decide a word leads onward. -/
def LeadsOn (now : ExpansionWord) (step : Except (Claim Kind) ExpansionWord) : Prop :=
  ∀ later, step = .ok later → now.cursor.place.Onward later.cursor.place

variable {now here : ExpansionWord}

theorem leadsOn_error (claim : Claim Kind) : now.LeadsOn (.error claim) := by
  intro later h
  cases h

theorem leadsOn_ok (h : now.cursor.place.Onward here.cursor.place) : now.LeadsOn (.ok here) := by
  intro later hlater
  cases hlater
  exact h

theorem leadsOn_bind {first : Except (Claim Kind) ExpansionWord}
    {next : ExpansionWord → Except (Claim Kind) ExpansionWord} (hfirst : now.LeadsOn first)
    (hnext : ∀ here : ExpansionWord, here.LeadsOn (next here)) : now.LeadsOn (first >>= next) := by
  intro later h
  cases first with
  | error claim => cases h
  | ok here => exact (hfirst here rfl).trans (hnext here later h)

theorem onward_take (now : ExpansionWord) : now.cursor.place.Onward now.take.cursor.place :=
  .next now.cursor.place

theorem leadsOn_takeDollar (now : ExpansionWord) : now.LeadsOn now.takeDollar := by
  rw [takeDollar]
  split
  · exact leadsOn_error _
  · exact leadsOn_ok (.next now.cursor.place)

/-- A turn in a group leads onward, and ends the group where it is. -/
theorem leadsTo_groupTurn (now : ExpansionWord) :
    (groupTurn now).LeadsTo (fun later => now.cursor.place.Onward later.cursor.place)
      now.LeadsOn := by
  rw [groupTurn]
  split
  · exact leadsOn_ok (.refl _)
  split
  · split
    · next later htake => exact now.leadsOn_takeDollar later htake
    · exact leadsOn_error _
  · exact now.onward_take

theorem progresses_group : Progresses groupTurn ExpansionWord.cursor := by
  apply Progresses.of_leadsOnward groupTurn_shrinks
  intro now
  exact now.leadsTo_groupTurn.mono (fun _ h => h) fun _ _ => trivial

/-- A group ends onward of where it begins, because all of its turns lead onward. -/
theorem leadsOn_takeGroup (now : ExpansionWord) : now.LeadsOn now.takeGroup := by
  have hclosing : now.LeadsOn (Turn.run groupTurn (fun now => now.cursor.remaining)
      groupTurn_shrinks { now with cursor := now.cursor.markEnd.consume }) := by
    apply Turn.run_of_leadsTo fun state => now.cursor.place.Onward state.cursor.place
    · intro state hstate
      apply state.leadsTo_groupTurn.mono
      · exact fun later hlater => hstate.trans hlater
      · exact fun result hresult later h => hstate.trans (hresult later h)
    · exact .next now.cursor.place
  rw [takeGroup]
  apply leadsOn_bind hclosing
  intro closing
  split
  · exact leadsOn_error none
  dsimp only
  split
  · exact leadsOn_error none
  · exact leadsOn_ok (.next closing.cursor.place)

theorem leadsOn_pastDollar (now : ExpansionWord) : now.LeadsOn now.pastDollar := by
  rw [pastDollar]
  split
  · exact now.leadsOn_takeDollar
  · exact leadsOn_ok (.refl _)

theorem leadsOn_pastGroup (now : ExpansionWord) : now.LeadsOn now.pastGroup := by
  rw [pastGroup]
  split
  · exact now.leadsOn_takeGroup
  · exact leadsOn_ok (.refl _)

theorem leadsOn_advance (now : ExpansionWord) : now.LeadsOn now.advance := by
  rw [advance]
  split
  · exact leadsOn_error none
  apply leadsOn_bind now.leadsOn_pastDollar
  intro here
  split
  · exact leadsOn_error _
  apply leadsOn_bind here.leadsOn_pastGroup
  intro word
  split
  · exact leadsOn_error none
  · exact leadsOn_ok word.onward_take

theorem progresses_turn : Progresses turn ExpansionWord.cursor := by
  apply Progresses.of_leadsOnward turn_shrinks
  intro now
  rw [turn]
  split
  · next later hadvance => exact now.leadsOn_advance later hadvance
  · trivial

end ExpansionWord

/-! ## Every loop -/

/-- The loops of the resolvers make progress, from whatever state they begin. -/
structure LoopsProgress : Prop where
  regex (style : RegexStyle) (kind : Kind) : Progresses (regexTurn style kind) Regex.cursor
  glob (depth : UInt8) : Progresses (globTurn depth) Glob.cursor
  body (part : BodyPart) : Progresses (bodyTurn part) Body.cursor
  word (quote : Option Char) : Progresses (wordTurn quote) PartialWord.cursor
  filler (accepted : Accepted) : Progresses (fillerTurn accepted) id
  name : Progresses nameTurn Prod.fst
  expansionWord : Progresses ExpansionWord.turn ExpansionWord.cursor
  /-- The loop inside of the one for words, in a group. -/
  expansionGroup : Progresses ExpansionWord.groupTurn ExpansionWord.cursor
  substitution :
    Progresses (Cursor.whileTurn Cursor.consume (Cursor.passes (· ≠ backquote))) id
  /-- Consuming as long as a test holds, which NUL fails. -/
  consuming (test : Char → Bool) : test '\x00' = false →
    Progresses (Cursor.whileTurn Cursor.consume fun c => test c.lookahead) id
  /-- Ignoring as long as a test holds, which NUL fails. -/
  ignoring (test : Char → Bool) : test '\x00' = false →
    Progresses (Cursor.whileTurn Cursor.ignore fun c => test c.lookahead) id

theorem loopsProgress : LoopsProgress where
  regex := progresses_regex
  glob := progresses_glob
  body := progresses_body
  word := progresses_word
  filler := progresses_filler
  name := progresses_name
  expansionWord := ExpansionWord.progresses_turn
  expansionGroup := ExpansionWord.progresses_group
  substitution :=
    Cursor.progresses_whileTurn (fun _ => Cursor.advances_consume)
      (Cursor.passes_eq_false_of_atEnd _)
  consuming test nul := by
    apply Cursor.progresses_whileTurn fun _ => Cursor.advances_consume
    intro c hend
    rw [Cursor.lookahead_of_atEnd hend, nul]
  ignoring test nul := by
    apply Cursor.progresses_whileTurn fun _ => Cursor.advances_ignore
    intro c hend
    rw [Cursor.lookahead_of_atEnd hend, nul]

/-- Where resolvers move over a run of characters at once, they come to where a loop stops that
takes one character after the other. -/
structure LoopsStop : Prop where
  name (c : Cursor) :
    ∃ n, Stops nameTurn (c, true) n
      (c.consumeWhile isNameCharacter,
        (c.place.ahead.takeWhile isNameCharacter).all Char.isDigit)
  substitution (c : Cursor) :
    ∃ n, Stops (Cursor.whileTurn Cursor.consume (Cursor.passes (· ≠ backquote))) c n
      (c.consumeWhile (· ≠ backquote))
  consuming (test : Char → Bool) (c : Cursor) : test '\x00' = false →
    ∃ n, Stops (Cursor.whileTurn Cursor.consume fun c => test c.lookahead) c n
      (c.consumeWhile test)
  ignoring (test : Char → Bool) (c : Cursor) : test '\x00' = false →
    ∃ n, Stops (Cursor.whileTurn Cursor.ignore fun c => test c.lookahead) c n
      (c.ignoreWhile test)

theorem loopsStop : LoopsStop where
  name c := by simpa using stops_nameTurn c true
  substitution := Cursor.stops_consumeWhile (· ≠ backquote)
  consuming test c nul := by
    rw [← funext (Cursor.passes_eq_of_nul nul)]
    exact Cursor.stops_consumeWhile test c
  ignoring test c nul := by
    rw [← funext (Cursor.passes_eq_of_nul nul)]
    exact Cursor.stops_ignoreWhile test c

end ContextLexer.Shell
