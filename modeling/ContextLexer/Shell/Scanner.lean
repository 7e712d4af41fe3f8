/-
# The shell scanner

A call walks over the resolvers in their order and asks those whose constructs the host
accepts, until one of them claims a token or declines. A resolver that hands the input
over names a resolver after it, and the walk goes on from there. A claim counts only if
the host accepts its kind.

Changes of the state do not wait for the outcome of the call. A body scan marks its
heredoc as it goes, and a delimiter that cannot be read leaves its heredoc without one.
-/

import ContextLexer.Shell.BraceRange
import ContextLexer.Shell.Concatenation
import ContextLexer.Shell.Expansion
import ContextLexer.Shell.ExtendedGlob
import ContextLexer.Shell.Heredoc.Body
import ContextLexer.Shell.Heredoc.Word
import ContextLexer.Shell.Name
import ContextLexer.Shell.Operand
import ContextLexer.Shell.Regex
import ContextLexer.Shell.State

namespace ContextLexer.Shell

/-! ## Which resolvers are asked -/

/-- Whether the innermost heredoc exists and has been started or not, as asked. -/
def innermostStarted (started : Bool) (s : State) : Prop :=
  ∃ h, s.heredocs.head? = some h ∧ h.started = started

instance (started : Bool) (s : State) : Decidable (innermostStarted started s) :=
  decidable_of_iff ((s.heredocs.head?.map Heredoc.started) = some started)
    (by simp [innermostStarted])

/-- Whether a resolver is asked at all, given the state and the accepted kinds. -/
def Resolver.asked (s : State) (accepted : Accepted) : Resolver → Prop
  | .concatenation => .concatenation ∈ accepted ∧ ¬ isRecovering accepted
  | .doubleHash => .doubleHash ∈ accepted ∧ ¬ isRecovering accepted
  | .expansionSymbol => .symbolHash ∈ accepted ∧ ¬ isRecovering accepted
  | .emptyValue => .emptyValue ∈ accepted
  | .heredocBody =>
    (.heredocOpening ∈ accepted ∨ .heredocBody ∈ accepted) ∧
      innermostStarted false s ∧ ¬ isRecovering accepted
  | .heredocEnd => .heredocEnd ∈ accepted ∧ s.heredocs ≠ []
  | .heredocContent =>
    .heredocContent ∈ accepted ∧ innermostStarted true s ∧ ¬ isRecovering accepted
  | .heredocStart => .heredocStart ∈ accepted ∧ ¬ isRecovering accepted ∧ s.heredocs ≠ []
  | .testOperator => .testOperator ∈ accepted ∧ .expansionWord ∉ accepted
  | .name =>
    (.variableName ∈ accepted ∨ .fileDescriptor ∈ accepted ∨ .arrow ∈ accepted) ∧
      .regexNoSlash ∉ accepted ∧ ¬ isRecovering accepted
  | .bareDollar => .bareDollar ∈ accepted ∧ ¬ isRecovering accepted
  | .regex =>
    (.regex ∈ accepted ∨ .regexNoSlash ∈ accepted ∨ .regexNoSpace ∈ accepted) ∧
      ¬ isRecovering accepted
  | .extendedGlob => .extendedGlob ∈ accepted ∧ ¬ isRecovering accepted
  | .expansionWord => .expansionWord ∈ accepted
  | .braceRange => .braceStart ∈ accepted ∧ ¬ isRecovering accepted

instance (s : State) (accepted : Accepted) (resolver : Resolver) :
    Decidable (resolver.asked s accepted) := by
  cases resolver <;> unfold Resolver.asked <;> infer_instance

/-! ## What they do to the state -/

namespace State

/-- Scan a part of the body of the innermost heredoc. The closing line closes the heredoc
only if its kind is accepted, so that the heredoc outlives a call that declines. -/
def readBody (part : BodyPart) (s : State) (accepted : Accepted) (c : Cursor) : State × Ruling :=
  match s.heredocs with
  | [] => (s, .pass c)
  | h :: outer =>
    match Shell.readBody part h c with
    | (h, .part kind after) => ({ s with heredocs := h :: outer }, .claim kind after)
    | (h, .closing kind after) =>
      if kind ∈ accepted then ({ s with heredocs := outer }, .claim kind after)
      else ({ s with heredocs := h :: outer }, .decline)
    | (h, .nothing) => ({ s with heredocs := h :: outer }, .decline)

/-- Close the innermost heredoc if its delimiter comes next. -/
def closeHeredoc (s : State) (c : Cursor) : State × Ruling :=
  match s.heredocs with
  | [] => (s, .pass c)
  | h :: outer =>
    match meetDelimiter h.delimiter c with
    | (true, after) => ({ s with heredocs := outer }, .claim .heredocEnd after)
    | (false, after) => (s, .pass after)

/-- Read the delimiter of the innermost heredoc. -/
def nameHeredoc (s : State) (c : Cursor) : State × Ruling :=
  match s.heredocs with
  | [] => (s, .pass c)
  | h :: outer =>
    let result := readDelimiter h c
    ({ s with heredocs := result.1 :: outer },
      .ofClaim (result.2.map fun after => (.heredocStart, after)))

/-- The state after a claim by the resolver for names: an arrow opens a heredoc. -/
def afterName (s : State) : Ruling → State
  | .claim .arrow _ => s.push (Heredoc.opened false)
  | .claim .arrowDash _ => s.push (Heredoc.opened true)
  | _ => s

/-- Read a glob, and remember its depth. -/
def scanGlob (s : State) (c : Cursor) : State × Ruling :=
  let result := readGlob s.globDepth c
  ({ s with globDepth := result.1 }, .ofClaim result.2)

end State

/-- Ask a resolver. -/
def Resolver.run (s : State) (accepted : Accepted) (c : Cursor) : Resolver → State × Ruling
  | .concatenation => (s, resolveConcatenation accepted c)
  | .doubleHash => (s, resolveDoubleHash c)
  | .expansionSymbol => (s, resolveSymbol c)
  | .emptyValue => (s, resolveEmptyValue c)
  | .heredocBody => s.readBody .leading accepted c
  | .heredocEnd => s.closeHeredoc c
  | .heredocContent => s.readBody .trailing accepted c
  | .heredocStart => s.nameHeredoc c
  | .testOperator => (s, resolveTestOperator accepted c)
  | .name =>
    let ruling := resolveName accepted c
    (s.afterName ruling, ruling)
  | .bareDollar => (s, resolveBareDollar c)
  | .regex => (s, resolveRegex accepted c)
  | .extendedGlob => s.scanGlob c
  | .expansionWord => (s, resolveExpansionWord c)
  | .braceRange => (s, resolveBraceRange c)

/-! ## The walk -/

/-- Walk over resolvers. If a target is given, the resolvers in front of it are passed by. -/
def walk (accepted : Accepted) :
    (resolvers : List Resolver) → (target : Option Resolver) → State → Cursor → Verdict State Kind
  | [], _, s, _ => ⟨s, none⟩
  | resolver :: resolvers, target, s, c =>
    if target.isSome ∧ target ≠ some resolver then walk accepted resolvers target s c
    else if ¬ resolver.asked s accepted then walk accepted resolvers none s c
    else
      match resolver.run s accepted c with
      | (s, .pass c) => walk accepted resolvers none s c
      | (s, .handOver target c) => walk accepted resolvers (some target) s c
      | (s, .decline) => ⟨s, none⟩
      | (s, .claim kind c) =>
        ⟨s, if kind.isEmittable ∧ kind ∈ accepted then some (kind, c) else none⟩

/-- One call of the scanner. -/
def State.scan (s : State) (accepted : Accepted) (c : Cursor) : Verdict State Kind :=
  walk accepted Resolver.order none s c

instance : Scanner State Kind where
  initial := State.initial
  scan := State.scan
  write := State.write
  load _ bytes := State.load bytes

end ContextLexer.Shell
