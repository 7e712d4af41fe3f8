/-
# Handing over

Two resolvers hand the input over where they find that it is not theirs. They name a resolver
behind them in the order, and one that knows a construct which the host accepts, except that
a brace in front of a name is always left to the resolver for brace ranges.
-/

import ContextLexer.Proofs.Shell.Walk

namespace ContextLexer.Shell

variable {accepted : Accepted} {s : State} {c d : Cursor}

/-- A ruling hands the input over only to resolvers with some property. -/
def Ruling.HandsTo (holds : Resolver → Prop) : Ruling → Prop
  | handOver target _ => holds target
  | claim _ _ | decline | pass _ => True

namespace Ruling

variable {holds : Resolver → Prop} {kind : Kind}

theorem handsTo_claimIf (condition : Bool) : (claimIf condition kind c).HandsTo holds := by
  cases condition <;> trivial

theorem handsTo_ofClaim (claim : Claim Kind) : (ofClaim claim).HandsTo holds := by
  cases claim <;> trivial

end Ruling

/-- The resolvers to which a resolver may hand the input over, given what the host accepts. -/
def Resolver.MayHandTo (accepted : Accepted) : Resolver → Resolver → Prop
  | .testOperator, .extendedGlob => .extendedGlob ∈ accepted
  | .testOperator, .regex => .regexNoSpace ∈ accepted
  | .name, .braceRange => True
  | .name, .expansionWord => .expansionWord ∈ accepted
  | .name, .extendedGlob => .extendedGlob ∈ accepted
  | _, _ => False

/-- A hand-over goes to a later resolver. -/
theorem Resolver.MayHandTo.mem_earlier {resolver target : Resolver}
    (h : resolver.MayHandTo accepted target) : resolver ∈ target.earlier := by
  cases resolver with
  | testOperator =>
      cases target with
      | extendedGlob | regex => decide
      | _ => exact h.elim
  | name =>
      cases target with
      | braceRange | expansionWord | extendedGlob => decide
      | _ => exact h.elim
  | _ => exact h.elim

/-- A regex is handed over only where the host accepts one that whitespace ends. -/
theorem Resolver.MayHandTo.regexNoSpace_mem {resolver : Resolver}
    (h : resolver.MayHandTo accepted .regex) : .regexNoSpace ∈ accepted := by
  cases resolver with
  | testOperator => exact h
  | _ => exact h.elim

/-! ## Resolvers that never hand over -/

section

variable (accepted c) (holds : Resolver → Prop)

theorem handsTo_concatenation : (resolveConcatenation accepted c).HandsTo holds := by
  have hspace (c : Cursor) : (concatenateSpace accepted c).HandsTo holds := by
    rw [concatenateSpace]
    split <;> trivial
  rw [resolveConcatenation]
  split
  · exact hspace c
  split
  · rw [concatenateSubstitution]
    dsimp only
    split
    · trivial
    · exact Ruling.handsTo_claimIf _
  split
  · dsimp only
    split
    · trivial
    split
    · trivial
    · exact hspace _
  · trivial

theorem handsTo_doubleHash : (resolveDoubleHash c).HandsTo holds := by
  rw [resolveDoubleHash]
  dsimp only
  split
  · split
    · split <;> trivial
    · trivial
  · trivial

theorem handsTo_symbol : (resolveSymbol c).HandsTo holds := by
  rw [resolveSymbol]
  split
  · trivial
  · exact Ruling.handsTo_claimIf _

theorem handsTo_emptyValue : (resolveEmptyValue c).HandsTo holds := by
  rw [resolveEmptyValue]
  split <;> trivial

theorem handsTo_bareDollar : (resolveBareDollar c).HandsTo holds := by
  rw [resolveBareDollar]
  split <;> trivial

theorem handsTo_regex : (resolveRegex accepted c).HandsTo holds := by
  rw [resolveRegex]
  generalize (if .regex ∈ accepted ∨ .regexNoSpace ∈ accepted then c.ignoreWhile isSpace
    else c) = c
  dsimp only
  split
  · trivial
  split
  · split
    · trivial
    · exact Ruling.handsTo_ofClaim _
  · exact Ruling.handsTo_ofClaim _

theorem handsTo_braceRange : (resolveBraceRange c).HandsTo holds := by
  rw [resolveBraceRange]
  dsimp only
  split
  · trivial
  split
  · exact Ruling.handsTo_claimIf _
  · trivial

variable (s)

theorem handsTo_readBody (part : BodyPart) : (s.readBody part accepted c).2.HandsTo holds := by
  rw [State.readBody]
  split
  · trivial
  split
  · trivial
  · split <;> trivial
  · trivial

theorem handsTo_closeHeredoc : (s.closeHeredoc c).2.HandsTo holds := by
  rw [State.closeHeredoc]
  split
  · trivial
  split <;> trivial

theorem handsTo_nameHeredoc : (s.nameHeredoc c).2.HandsTo holds := by
  rw [State.nameHeredoc]
  split
  · trivial
  · exact Ruling.handsTo_ofClaim _

end

/-! ## The two resolvers that hand over -/

section

variable (accepted) (c)

theorem handsTo_dollarOperand :
    (dollarOperand accepted c).HandsTo (Resolver.testOperator.MayHandTo accepted) := by
  rw [dollarOperand]
  split
  · exact handsTo_bareDollar _ _
  · trivial

theorem handsTo_spacedOperator (holds : Resolver → Prop) :
    (spacedOperator accepted c).HandsTo holds := by
  rw [spacedOperator]
  split
  · exact Ruling.handsTo_claimIf _
  · trivial

theorem handsTo_dashOperator :
    (dashOperator accepted c).HandsTo (Resolver.testOperator.MayHandTo accepted) := by
  rw [dashOperator]
  dsimp only
  split
  · split
    · exact handsTo_spacedOperator accepted _ _
    split
    · trivial
    · exact handsTo_dollarOperand accepted _
  · exact handsTo_dollarOperand accepted c

theorem handsTo_operatorLine :
    (operatorLine accepted c).HandsTo (Resolver.testOperator.MayHandTo accepted) := by
  rw [operatorLine]
  split
  · exact handsTo_dashOperator accepted _
  · exact handsTo_dashOperator accepted c

theorem handsTo_testOperator :
    (resolveTestOperator accepted c).HandsTo (Resolver.testOperator.MayHandTo accepted) := by
  rw [resolveTestOperator]
  split
  · split
    · next hglob => exact hglob
    split
    · next hregex => exact hregex
    split
    · exact handsTo_operatorLine accepted _
    · trivial
  · exact handsTo_operatorLine accepted _

theorem handsTo_claimName (isNumber : Bool) (holds : Resolver → Prop) :
    (claimName accepted isNumber c).HandsTo holds := by
  rw [claimName]
  dsimp only
  split
  · exact Ruling.handsTo_claimIf _
  split
  · trivial
  split
  · trivial
  split
  · trivial
  split
  · trivial
  split
  · exact Ruling.handsTo_claimIf _
  · trivial

theorem handsTo_readName :
    (readName accepted c).HandsTo (Resolver.name.MayHandTo accepted) := by
  rw [readName]
  split
  · dsimp only
    split
    · trivial
    split
    · exact handsTo_claimName accepted _ _ _
    · trivial
  split
  · exact trivial
  split
  · next hword => exact hword
  split
  · next hglob => exact hglob
  · trivial

theorem handsTo_readArrowOrName :
    (readArrowOrName accepted c).HandsTo (Resolver.name.MayHandTo accepted) := by
  rw [readArrowOrName]
  split
  · rw [readArrow]
    dsimp only
    split
    · trivial
    split
    · exact Ruling.handsTo_claimIf _
    split <;> trivial
  · exact handsTo_readName accepted c

/-- What stands in front of a name may decide the call, as the resolver may. -/
def FillerHandsTo (result : Except Ruling Cursor) : Prop :=
  ∀ ruling, result = .error ruling → ruling.HandsTo (Resolver.name.MayHandTo accepted)

theorem fillerHandsTo_skipFiller : FillerHandsTo accepted (skipFiller accepted c) := by
  have hok (c : Cursor) : FillerHandsTo accepted (.ok c) := by
    rintro ruling ⟨⟩
  have herror {ruling : Ruling} (h : ruling.HandsTo (Resolver.name.MayHandTo accepted)) :
      FillerHandsTo accepted (.error ruling) := by
    rintro other ⟨⟩
    exact h
  apply Turn.run_of_leadsTo (fun _ => True) _ trivial
  intro c _
  rw [fillerTurn]
  split
  · trivial
  split
  · dsimp only
    generalize (if c.ignore.sees '\r' then c.ignore.ignore else c.ignore) = line
    split
    · exact herror trivial
    split
    · trivial
    split
    · next hword => exact herror hword.2
    · exact herror trivial
  · exact hok c

theorem handsTo_name :
    (resolveName accepted c).HandsTo (Resolver.name.MayHandTo accepted) := by
  rw [resolveName]
  split
  · next ruling hruling => exact fillerHandsTo_skipFiller accepted c ruling hruling
  · dsimp only
    split
    · split
      · trivial
      split
      · trivial
      · exact handsTo_readArrowOrName accepted _
    · exact handsTo_readArrowOrName accepted _

end

/-- Resolvers hand the input over to later ones only, and the host accepts what these are asked
for. -/
theorem mayHandTo_of_run {resolver target : Resolver}
    (h : (resolver.run s accepted c).2 = .handOver target d) :
    resolver.MayHandTo accepted target := by
  suffices hands : (resolver.run s accepted c).2.HandsTo (resolver.MayHandTo accepted) by
    rw [h] at hands
    exact hands
  cases resolver with
  | concatenation => exact handsTo_concatenation accepted c _
  | doubleHash => exact handsTo_doubleHash c _
  | expansionSymbol => exact handsTo_symbol c _
  | emptyValue => exact handsTo_emptyValue c _
  | heredocBody => exact handsTo_readBody accepted s c _ .leading
  | heredocEnd => exact handsTo_closeHeredoc s c _
  | heredocContent => exact handsTo_readBody accepted s c _ .trailing
  | heredocStart => exact handsTo_nameHeredoc s c _
  | testOperator => exact handsTo_testOperator accepted c
  | name => exact handsTo_name accepted c
  | bareDollar => exact handsTo_bareDollar c _
  | regex => exact handsTo_regex accepted c _
  | extendedGlob => exact Ruling.handsTo_ofClaim _
  | expansionWord => exact Ruling.handsTo_ofClaim _
  | braceRange => exact handsTo_braceRange c _

end ContextLexer.Shell
