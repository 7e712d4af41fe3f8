/-
# What resolvers may rule

Every resolver knows one construct, and claims only tokens that belong to it. A resolver
that does not decide a call leaves the input to others at the place that it has come to: it
may have consumed and ignored characters, but it never goes back, and the state of the
scanner is what it was.
-/

import ContextLexer.Proofs.Shell.Heredoc.Outcome
import ContextLexer.Shell.Scanner

namespace ContextLexer.Shell

/-- A ruling claims only kinds with some property, and leaves to the other resolvers only a
rest of what was ahead of a cursor. -/
def Ruling.Fits (holds : Kind → Prop) (c : Cursor) : Ruling → Prop
  | claim kind _ => holds kind
  | decline => True
  | pass after | handOver _ after => after.place.ahead <:+ c.place.ahead

namespace Ruling

variable {holds : Kind → Prop} {kind : Kind} {c after : Cursor} {target : Resolver}

@[simp] theorem fits_claim : (claim kind after).Fits holds c ↔ holds kind := Iff.rfl

@[simp] theorem fits_decline : decline.Fits holds c ↔ True := Iff.rfl

@[simp] theorem fits_pass :
    (pass after).Fits holds c ↔ after.place.ahead <:+ c.place.ahead := Iff.rfl

@[simp] theorem fits_handOver :
    (handOver target after).Fits holds c ↔ after.place.ahead <:+ c.place.ahead := Iff.rfl

@[simp] theorem fits_claimIf {condition : Bool} :
    (claimIf condition kind after).Fits holds c ↔ (condition = true → holds kind) := by
  cases condition <;> simp [claimIf]

@[simp] theorem fits_ofClaim {claim : Claim Kind} :
    (ofClaim claim).Fits holds c ↔ ∀ found ∈ claim, holds found.1 := by
  cases claim <;> simp [ofClaim]

/-- A ruling on a rest of the input is a ruling on the whole. -/
theorem Fits.onward {ruling : Ruling} (h : ruling.Fits holds after)
    (onward : after.place.ahead <:+ c.place.ahead) : ruling.Fits holds c := by
  cases ruling with
  | pass _ => exact List.IsSuffix.trans h onward
  | handOver _ _ => exact List.IsSuffix.trans h onward
  | claim _ _ => exact h
  | decline => trivial

theorem Fits.mono {also : Kind → Prop} {ruling : Ruling} (h : ruling.Fits holds c)
    (implies : ∀ kind, holds kind → also kind) : ruling.Fits also c := by
  cases ruling with
  | claim kind _ => exact implies kind h
  | decline | pass | handOver => exact h

/-- A claim that fits is of a kind with the property. -/
theorem Fits.of_claim {ruling : Ruling} (h : ruling.Fits holds c)
    (claims : ruling = .claim kind after) : holds kind := by
  subst claims
  exact h

end Ruling

/-- The kinds of the construct that a resolver knows. -/
def Resolver.kinds : Resolver → List Kind
  | .concatenation => [.concatenation]
  | .doubleHash => [.doubleHash]
  | .expansionSymbol => [.symbolHash, .symbolBang, .symbolEqual]
  | .emptyValue => [.emptyValue]
  | .heredocBody => [.heredocBody, .heredocOpening]
  | .heredocEnd => [.heredocEnd]
  | .heredocContent => [.heredocContent, .heredocEnd]
  | .heredocStart => [.heredocStart]
  | .testOperator => [.testOperator, .extendedGlob, .bareDollar, .expansionWord]
  | .name => [.variableName, .fileDescriptor, .arrow, .arrowDash, .extendedGlob]
  | .bareDollar => [.bareDollar]
  | .regex => [.regex, .regexNoSlash, .regexNoSpace]
  | .extendedGlob => [.extendedGlob]
  | .expansionWord => [.expansionWord]
  | .braceRange => [.braceStart]

/-- A ruling of a resolver on what is ahead of a cursor, as that resolver may rule. -/
def Resolver.Rules (resolver : Resolver) (c : Cursor) (ruling : Ruling) : Prop :=
  ruling.Fits (· ∈ resolver.kinds) c

variable (accepted : Accepted) (c : Cursor)

/-! ## Operands and concatenations -/

theorem rules_concatenateSpace :
    Resolver.concatenation.Rules c (concatenateSpace accepted c) := by
  rw [concatenateSpace]
  split <;> simp [Resolver.Rules, Resolver.kinds]

theorem rules_concatenation :
    Resolver.concatenation.Rules c (resolveConcatenation accepted c) := by
  rw [resolveConcatenation]
  split
  · exact rules_concatenateSpace accepted c
  split
  · rw [concatenateSubstitution]
    dsimp only
    split <;> simp [Resolver.Rules, Resolver.kinds]
  split
  · dsimp only
    split
    · simp [Resolver.Rules, Resolver.kinds]
    split
    · trivial
    · exact (rules_concatenateSpace accepted _).onward c.ahead_consume_suffix
  · simp [Resolver.Rules, Resolver.kinds]

theorem rules_emptyValue : Resolver.emptyValue.Rules c (resolveEmptyValue c) := by
  rw [resolveEmptyValue]
  split <;> simp [Resolver.Rules, Resolver.kinds]

theorem ahead_dollarAlone_suffix : (dollarAlone c).2.place.ahead <:+ c.place.ahead := by
  have hspace := c.ahead_ignoreWhile_suffix isSpaceInLine
  rw [dollarAlone]
  dsimp only
  split
  · exact (Cursor.ahead_consume_suffix _).trans hspace
  · exact hspace

theorem rules_bareDollar : Resolver.bareDollar.Rules c (resolveBareDollar c) := by
  have hdollar := ahead_dollarAlone_suffix c
  rw [resolveBareDollar]
  split
  · simp [Resolver.Rules, Resolver.kinds]
  · next after hafter =>
    rw [hafter] at hdollar
    exact hdollar

/-- The kinds that the resolver for test operators claims in a call: a bare dollar sign only
if the host is not recovering from an error, and a word of an expansion only if the host
accepts one. -/
def Operable (kind : Kind) : Prop :=
  kind ∈ Resolver.testOperator.kinds ∧ (kind = .bareDollar → ¬ isRecovering accepted) ∧
    (kind = .expansionWord → .expansionWord ∈ accepted)

theorem fits_dollarOperand : (dollarOperand accepted c).Fits (Operable accepted) c := by
  rw [dollarOperand]
  split
  · next hdollar =>
    refine (rules_bareDollar c).mono fun kind hkind => ?_
    obtain rfl : kind = .bareDollar := by simpa [Resolver.kinds] using hkind
    exact ⟨by decide, fun _ => hdollar.2, by simp⟩
  · exact List.suffix_rfl

theorem fits_spacedOperator : (spacedOperator accepted c).Fits (Operable accepted) c := by
  rw [spacedOperator]
  split
  · rw [Ruling.fits_claimIf]
    intro hword
    simpa [Operable, Resolver.kinds] using hword
  · simp [Operable, Resolver.kinds]

theorem fits_dashOperator : (dashOperator accepted c).Fits (Operable accepted) c := by
  have hletters := (c.consume.ahead_consumeWhile_suffix Char.isAlpha).trans c.ahead_consume_suffix
  rw [dashOperator]
  split
  · dsimp only
    split
    · exact (fits_spacedOperator accepted _).onward hletters
    split
    · simp [Operable, Resolver.kinds]
    · exact (fits_dollarOperand accepted _).onward hletters
  · exact fits_dollarOperand accepted c

theorem fits_operatorLine : (operatorLine accepted c).Fits (Operable accepted) c := by
  rw [operatorLine]
  split
  · exact (fits_dashOperator accepted _).onward
      ((Cursor.ahead_ignoreWhile_suffix _ _).trans c.ahead_ignore_suffix)
  · exact fits_dashOperator accepted c

theorem ahead_continueLine?_suffix {after : Cursor} (h : continueLine? c = some after) :
    after.place.ahead <:+ c.place.ahead := by
  rw [continueLine?] at h
  split at h
  · cases h
    split
    · exact (Cursor.ahead_ignore_suffix _).trans c.ahead_ignore_suffix
    · exact c.ahead_ignore_suffix
  split at h
  · cases h
    exact c.ahead_ignore_suffix
  · cases h

theorem fits_testOperator : (resolveTestOperator accepted c).Fits (Operable accepted) c := by
  have hspace := c.ahead_ignoreWhile_suffix isSpaceInLine
  rw [resolveTestOperator]
  generalize c.ignoreWhile isSpaceInLine = word at hspace
  split
  · split
    · exact hspace
    split
    · exact hspace
    split
    · next after hafter =>
      have hline := ahead_continueLine?_suffix _ hafter
      exact (fits_operatorLine accepted _).onward ((Cursor.ahead_ignoreWhile_suffix _ _).trans
        (hline.trans ((Cursor.ahead_ignore_suffix _).trans hspace)))
    · trivial
  · exact (fits_operatorLine accepted _).onward hspace

theorem rules_testOperator : Resolver.testOperator.Rules c (resolveTestOperator accepted c) :=
  (fits_testOperator accepted c).mono fun _ hkind => hkind.1

/-! ## Expansions and brace ranges -/

theorem rules_doubleHash : Resolver.doubleHash.Rules c (resolveDoubleHash c) := by
  rw [resolveDoubleHash]
  split
  · dsimp only
    split
    · split
      · exact (Cursor.ahead_consume_suffix _).trans c.ahead_consume_suffix
      · simp [Resolver.Rules, Resolver.kinds]
    · exact c.ahead_consume_suffix
  · exact List.suffix_rfl

theorem symbolKind?_mem {x : Char} {kind : Kind} (h : symbolKind? x = some kind) :
    kind ∈ Resolver.expansionSymbol.kinds := by
  rw [symbolKind?] at h
  split at h
  · cases h
    simp [Resolver.kinds]
  split at h
  · cases h
    simp [Resolver.kinds]
  split at h
  · cases h
    simp [Resolver.kinds]
  · cases h

theorem rules_symbol : Resolver.expansionSymbol.Rules c (resolveSymbol c) := by
  rw [resolveSymbol]
  split
  · exact List.suffix_rfl
  · next kind hkind =>
    rw [Resolver.Rules, Ruling.fits_claimIf]
    exact fun _ => symbolKind?_mem hkind

/-- A scan that claims only words of expansions. -/
def OnlyWords (claim : Claim Kind) : Prop := ∀ found ∈ claim, found.1 = .expansionWord

namespace ExpansionWord

theorem onlyWords_claimIf (condition : Bool) (c : Cursor) : OnlyWords (claimIf condition c) := by
  cases condition <;> simp [OnlyWords, claimIf]

/-- A step that decides the scan claims only words of expansions. -/
def EndsInWords {α : Type} (step : Except (Claim Kind) α) : Prop :=
  ∀ claim, step = .error claim → OnlyWords claim

theorem endsInWords_ok {α : Type} (value : α) :
    EndsInWords (Except.ok value : Except (Claim Kind) α) := by
  intro claim h
  cases h

theorem endsInWords_error {α : Type} {claim : Claim Kind} (h : OnlyWords claim) :
    EndsInWords (Except.error claim : Except (Claim Kind) α) := by
  intro other hother
  cases hother
  exact h

theorem endsInWords_bind {α β : Type} {first : Except (Claim Kind) α}
    {next : α → Except (Claim Kind) β} (hfirst : EndsInWords first)
    (hnext : ∀ value, EndsInWords (next value)) : EndsInWords (first >>= next) := by
  intro claim h
  cases first with
  | error found =>
      cases h
      exact hfirst _ rfl
  | ok value => exact hnext value claim h

theorem endsInWords_takeDollar (now : ExpansionWord) : EndsInWords now.takeDollar := by
  rw [takeDollar]
  split
  · exact endsInWords_error (onlyWords_claimIf _ _)
  · exact endsInWords_ok _

theorem endsInWords_pastDollar (now : ExpansionWord) : EndsInWords now.pastDollar := by
  rw [pastDollar]
  split
  · exact now.endsInWords_takeDollar
  · exact endsInWords_ok now

theorem endsInWords_groupTurn (now : ExpansionWord) :
    (groupTurn now).LeadsTo (fun _ => True) EndsInWords := by
  rw [groupTurn]
  split
  · exact endsInWords_ok now
  split
  · split
    · trivial
    · next claim htake =>
      intro other h
      cases h
      exact now.endsInWords_takeDollar claim htake
  · trivial

theorem endsInWords_takeGroup (now : ExpansionWord) : EndsInWords now.takeGroup := by
  have hnone : OnlyWords none := by simp [OnlyWords]
  rw [takeGroup]
  refine endsInWords_bind ?_ fun closing => ?_
  · exact Turn.run_of_leadsTo (fun _ => True) (fun state _ => state.endsInWords_groupTurn) trivial
  split
  · exact endsInWords_error hnone
  dsimp only
  split
  · exact endsInWords_error hnone
  · exact endsInWords_ok _

theorem endsInWords_pastGroup (now : ExpansionWord) : EndsInWords now.pastGroup := by
  rw [pastGroup]
  split
  · exact now.endsInWords_takeGroup
  · exact endsInWords_ok now

theorem endsInWords_advance (now : ExpansionWord) : EndsInWords now.advance := by
  have hnone : OnlyWords none := by simp [OnlyWords]
  rw [advance]
  split
  · exact endsInWords_error hnone
  refine endsInWords_bind now.endsInWords_pastDollar fun here => ?_
  split
  · exact endsInWords_error (onlyWords_claimIf _ _)
  refine endsInWords_bind here.endsInWords_pastGroup fun word => ?_
  split
  · exact endsInWords_error hnone
  · exact endsInWords_ok _

theorem onlyWords_turn (now : ExpansionWord) :
    (turn now).LeadsTo (fun _ => True) OnlyWords := by
  rw [turn]
  split
  · trivial
  · next claim h => exact now.endsInWords_advance claim h

end ExpansionWord

theorem rules_expansionWord : Resolver.expansionWord.Rules c (resolveExpansionWord c) := by
  rw [resolveExpansionWord, Resolver.Rules, Ruling.fits_ofClaim]
  intro found hfound
  have honly : OnlyWords (Turn.run ExpansionWord.turn (fun now => now.cursor.remaining)
      ExpansionWord.turn_shrinks ⟨c, false, false⟩) :=
    Turn.run_of_leadsTo (fun _ => True) (fun state _ => state.onlyWords_turn) trivial
  simp [Resolver.kinds, honly found hfound]

theorem rules_braceRange : Resolver.braceRange.Rules c (resolveBraceRange c) := by
  rw [resolveBraceRange]
  dsimp only
  split
  · trivial
  split <;> simp [Resolver.Rules, Resolver.kinds]

/-! ## Patterns -/

/-- A scan that claims only regexes. -/
def OnlyRegexes (claim : Claim Kind) : Prop := ∀ found ∈ claim, found.1 ∈ Resolver.regex.kinds

theorem regexKind_mem : regexKind accepted ∈ Resolver.regex.kinds := by
  rw [regexKind]
  split
  · simp [Resolver.kinds]
  split <;> simp [Resolver.kinds]

theorem onlyRegexes_turn (style : RegexStyle) {kind : Kind} (hkind : kind ∈ Resolver.regex.kinds)
    (now : Regex) : (regexTurn style kind now).LeadsTo (fun _ => True) OnlyRegexes := by
  have hsome (kind : Kind) (h : kind ∈ Resolver.regex.kinds) (c : Cursor) :
      OnlyRegexes (some (kind, c)) := by simpa [OnlyRegexes] using h
  have hnone : OnlyRegexes none := by simp [OnlyRegexes]
  rw [regexTurn]
  split
  · exact hnone
  split
  · rw [Turn.leadsTo_done]
    split
    · exact hnone
    · exact hsome kind hkind _
  split
  · trivial
  · rw [slashedTurn]
    dsimp only
    split
    · rw [Turn.leadsTo_done]
      split
      · exact hsome _ (by simp [Resolver.kinds]) _
      · exact hnone
    split
    · split <;> trivial
    · trivial
  · rw [spacedTurn]
    dsimp only
    split
    · trivial
    split
    · split
      · exact hnone
      split
      · exact hsome _ (by simp [Resolver.kinds]) _
      · trivial
    split
    · rw [Turn.leadsTo_done]
      split
      · exact hsome _ (by simp [Resolver.kinds]) _
      · exact hnone
    · trivial

theorem onlyRegexes_readRegex : OnlyRegexes (readRegex accepted c) :=
  Turn.run_of_leadsTo (fun _ => True)
    (fun state _ => onlyRegexes_turn _ (regexKind_mem accepted) state) trivial

theorem rules_regex : Resolver.regex.Rules c (resolveRegex accepted c) := by
  rw [resolveRegex]
  generalize hword : (if .regex ∈ accepted ∨ .regexNoSpace ∈ accepted
    then c.ignoreWhile isSpace else c) = word
  have honward : word.place.ahead <:+ c.place.ahead := by
    subst hword
    split
    · exact c.ahead_ignoreWhile_suffix _
    · exact List.suffix_rfl
  dsimp only
  split
  · exact honward
  split
  · split
    · trivial
    · exact Ruling.fits_ofClaim.mpr (onlyRegexes_readRegex accepted _)
  · exact Ruling.fits_ofClaim.mpr (onlyRegexes_readRegex accepted _)

/-- A scan that claims only globs. -/
def OnlyGlobs (result : GlobResult) : Prop := ∀ found ∈ result.2, found.1 = .extendedGlob

theorem onlyGlobs_claimGlob (depth : UInt8) (c : Cursor) : OnlyGlobs (claimGlob depth c) := by
  simp [OnlyGlobs, claimGlob]

theorem onlyGlobs_none (depth : UInt8) : OnlyGlobs (depth, none) := by
  simp [OnlyGlobs]

theorem onlyGlobs_turn (depth : UInt8) (now : Glob) :
    (globTurn depth now).LeadsTo (fun _ => True) OnlyGlobs := by
  rw [globTurn]
  dsimp only
  split
  · exact onlyGlobs_none depth
  split
  · exact onlyGlobs_claimGlob _ _
  generalize (if now.cursor.lookahead = '$' then now.cursor.markEnd.consume else now.cursor)
    = here
  split
  · exact onlyGlobs_claimGlob _ _
  split
  · exact onlyGlobs_claimGlob _ _
  · trivial

theorem onlyGlobs_readGroup (depth : UInt8) (c : Cursor) : OnlyGlobs (readGroup depth c) :=
  Turn.run_of_leadsTo (fun _ => True) (fun state _ => onlyGlobs_turn depth state) trivial

theorem onlyGlobs_globAlternative (depth : UInt8) (c : Cursor) :
    OnlyGlobs (globAlternative depth c) := by
  rw [globAlternative]
  generalize (if c.sees '|' then c.markEnd.consume else c) = after
  split
  · exact onlyGlobs_claimGlob _ _
  split
  · exact onlyGlobs_readGroup _ _
  · exact onlyGlobs_none depth

theorem onlyGlobs_globExpansion (depth : UInt8) (c : Cursor) :
    OnlyGlobs (globExpansion depth c) := by
  rw [globExpansion]
  generalize (if c.sees '$' then c.markEnd.consume else c) = after
  split
  · exact onlyGlobs_claimGlob _ _
  · exact onlyGlobs_globAlternative _ _

theorem onlyGlobs_globSpace (depth : UInt8) (c : Cursor) : OnlyGlobs (globSpace depth c) := by
  rw [globSpace]
  split
  · exact onlyGlobs_claimGlob _ _
  · exact onlyGlobs_globExpansion _ _

theorem onlyGlobs_globCase (depth : UInt8) (c : Cursor) : OnlyGlobs (globCase depth c) := by
  rw [globCase]
  split
  · dsimp only
    split
    · exact onlyGlobs_claimGlob _ _
    · exact onlyGlobs_globSpace _ _
  · exact onlyGlobs_globSpace _ _

theorem onlyGlobs_globDash (depth : UInt8) (c : Cursor) : OnlyGlobs (globDash depth c) := by
  rw [globDash]
  split
  · dsimp only
    split
    · exact onlyGlobs_none depth
    · exact onlyGlobs_globCase _ _
  · exact onlyGlobs_globCase _ _

theorem onlyGlobs_globFirst (depth : UInt8) (c : Cursor) : OnlyGlobs (globFirst depth c) := by
  rw [globFirst]
  split
  · dsimp only
    split
    · exact onlyGlobs_none depth
    · exact onlyGlobs_globDash _ _
  · exact onlyGlobs_globDash _ _

theorem onlyGlobs_readGlob (depth : UInt8) (c : Cursor) : OnlyGlobs (readGlob depth c) := by
  rw [readGlob]
  dsimp only
  split
  · exact onlyGlobs_none 0
  split
  · split
    · exact onlyGlobs_globFirst _ _
    · exact onlyGlobs_none depth
  · exact onlyGlobs_globFirst _ _

theorem rules_glob (depth : UInt8) :
    Resolver.extendedGlob.Rules c (.ofClaim (readGlob depth c).2) := by
  rw [Resolver.Rules, Ruling.fits_ofClaim]
  intro found hfound
  simp [Resolver.kinds, onlyGlobs_readGlob depth c found hfound]

/-! ## Names and arrows -/

/-- The kinds that the resolver for names claims in a call: an arrow only if the call
accepts it. -/
def Nameable (kind : Kind) : Prop :=
  kind ∈ Resolver.name.kinds ∧ (kind = .arrow ∨ kind = .arrowDash → kind ∈ accepted)

theorem fits_readArrow (harrow : .arrow ∈ accepted) :
    (readArrow accepted c).Fits (Nameable accepted) c := by
  rw [readArrow]
  dsimp only
  split
  · trivial
  split
  · rw [Ruling.fits_claimIf]
    intro hdash
    simpa [Nameable, Resolver.kinds] using hdash
  split
  · trivial
  · simpa [Nameable, Resolver.kinds] using harrow

theorem fits_claimName (isNumber : Bool) :
    (claimName accepted isNumber c).Fits (Nameable accepted) c := by
  have hname : Nameable accepted .variableName := by simp [Nameable, Resolver.kinds]
  rw [claimName]
  dsimp only
  split
  · simp [hname]
  split
  · exact hname
  split
  · exact hname
  split
  · exact hname
  split
  · exact hname
  split
  · simp [hname]
  · trivial

theorem fits_readName : (readName accepted c).Fits (Nameable accepted) c := by
  rw [readName]
  dsimp only
  split
  · split
    · simp [Nameable, Resolver.kinds]
    split
    · exact (fits_claimName accepted _ _).onward (c.ahead_consumeWhile_suffix _)
    · trivial
  split
  · exact List.suffix_rfl
  split
  · exact List.suffix_rfl
  split
  · exact List.suffix_rfl
  · trivial

theorem fits_readArrowOrName : (readArrowOrName accepted c).Fits (Nameable accepted) c := by
  rw [readArrowOrName]
  split
  · next h => exact fits_readArrow accepted c h.1
  · exact fits_readName accepted c

/-- What ignoring the characters in front of a name comes to: the name, or a ruling that the
resolver for names may make. -/
def FillerFits : Except Ruling Cursor → Prop
  | .ok after => after.place.ahead <:+ c.place.ahead
  | .error ruling => ruling.Fits (Nameable accepted) c

theorem fillerFits_fillerTurn (now : Cursor) (onward : now.place.ahead <:+ c.place.ahead) :
    (fillerTurn accepted now).LeadsTo (fun later => later.place.ahead <:+ c.place.ahead)
      (FillerFits accepted c) := by
  have hnext := now.ahead_ignore_suffix.trans onward
  rw [fillerTurn]
  split
  · exact hnext
  split
  · dsimp only
    split
    · exact (by simp [Nameable, Resolver.kinds] : Nameable accepted .variableName)
    generalize hline : (if now.ignore.sees '\r' then now.ignore.ignore else now.ignore) = line
    have hline : line.place.ahead <:+ c.place.ahead := by
      subst hline
      split
      · exact (Cursor.ahead_ignore_suffix _).trans hnext
      · exact hnext
    split
    · exact (Cursor.ahead_ignore_suffix _).trans hline
    split
    · exact hline
    · trivial
  · exact onward

theorem fillerFits_skipFiller : FillerFits accepted c (skipFiller accepted c) :=
  Turn.run_of_leadsTo (fun later => later.place.ahead <:+ c.place.ahead)
    (fillerFits_fillerTurn accepted c) List.suffix_rfl

theorem fits_name : (resolveName accepted c).Fits (Nameable accepted) c := by
  have hfiller := fillerFits_skipFiller accepted c
  rw [resolveName]
  split
  · next ruling hruling =>
    rw [hruling] at hfiller
    exact hfiller
  · next word hword =>
    rw [hword] at hfiller
    have honward : word.place.ahead <:+ c.place.ahead := hfiller
    dsimp only
    split
    · split
      · trivial
      split
      · simp [Nameable, Resolver.kinds]
      · exact (fits_readArrowOrName accepted _).onward
          ((Cursor.ahead_consume_suffix _).trans honward)
    · exact (fits_readArrowOrName accepted word).onward honward

/-! ## Every resolver -/

/-- What a resolver leaves to the others if it does not decide the call: the state as it
was, and a rest of the text. -/
def LeavesTo (s : State) (result : State × Ruling) : Prop :=
  match result with
  | (later, .pass after) | (later, .handOver _ after) =>
    later = s ∧ after.place.ahead <:+ c.place.ahead
  | _ => True

variable {c} {s : State}

theorem leavesTo_of_fits {holds : Kind → Prop} {ruling : Ruling} (h : ruling.Fits holds c) :
    LeavesTo c s (s, ruling) := by
  cases ruling with
  | pass _ => exact ⟨rfl, h⟩
  | handOver _ _ => exact ⟨rfl, h⟩
  | claim | decline => trivial

variable (c s)

theorem leavesTo_readBody (part : BodyPart) : LeavesTo c s (s.readBody part accepted c) := by
  rw [State.readBody]
  split
  · exact ⟨rfl, List.suffix_rfl⟩
  · split
    · trivial
    · split <;> trivial
    · trivial

theorem leavesTo_closeHeredoc : LeavesTo c s (s.closeHeredoc c) := by
  rw [State.closeHeredoc]
  split
  · exact ⟨rfl, List.suffix_rfl⟩
  · next h outer _ =>
    have hlook := ahead_meetDelimiter_suffix h.delimiter c
    split
    · trivial
    · next after hafter =>
      rw [hafter] at hlook
      exact ⟨rfl, hlook⟩

theorem rules_closeHeredoc : Resolver.heredocEnd.Rules c (s.closeHeredoc c).2 := by
  rw [State.closeHeredoc]
  split
  · exact List.suffix_rfl
  · next h outer _ =>
    have hlook := ahead_meetDelimiter_suffix h.delimiter c
    split
    · simp [Resolver.Rules, Resolver.kinds]
    · next after hafter =>
      rw [hafter] at hlook
      exact hlook

theorem leavesTo_nameHeredoc : LeavesTo c s (s.nameHeredoc c) := by
  rw [State.nameHeredoc]
  split
  · exact ⟨rfl, List.suffix_rfl⟩
  · dsimp only
    cases (readDelimiter _ c).2 <;> trivial

theorem leavesTo_scanGlob : LeavesTo c s (s.scanGlob c) := by
  rw [State.scanGlob]
  cases (readGlob s.globDepth c).2 <;> trivial

theorem leavesTo_name :
    LeavesTo c s (s.afterName (resolveName accepted c), resolveName accepted c) := by
  have hfits := fits_name accepted c
  generalize resolveName accepted c = ruling at hfits
  cases ruling with
  | pass _ => exact ⟨rfl, hfits⟩
  | handOver _ _ => exact ⟨rfl, hfits⟩
  | claim | decline => trivial

/-- A resolver that does not decide a call has changed nothing and has not gone back. -/
theorem leavesTo_run (resolver : Resolver) :
    LeavesTo c s (resolver.run s accepted c) := by
  cases resolver with
  | concatenation => exact leavesTo_of_fits (rules_concatenation accepted c)
  | doubleHash => exact leavesTo_of_fits (rules_doubleHash c)
  | expansionSymbol => exact leavesTo_of_fits (rules_symbol c)
  | emptyValue => exact leavesTo_of_fits (rules_emptyValue c)
  | heredocBody => exact leavesTo_readBody accepted c s .leading
  | heredocEnd => exact leavesTo_closeHeredoc c s
  | heredocContent => exact leavesTo_readBody accepted c s .trailing
  | heredocStart => exact leavesTo_nameHeredoc c s
  | testOperator => exact leavesTo_of_fits (rules_testOperator accepted c)
  | name => exact leavesTo_name accepted c s
  | bareDollar => exact leavesTo_of_fits (rules_bareDollar c)
  | regex => exact leavesTo_of_fits (rules_regex accepted c)
  | extendedGlob => exact leavesTo_scanGlob c s
  | expansionWord => exact leavesTo_of_fits (rules_expansionWord c)
  | braceRange => exact leavesTo_of_fits (rules_braceRange c)

end ContextLexer.Shell
