/-
# What a call of the shell scanner changes

Many resolvers can take part in a call, but at most one of them decides it, and only the
deciding one changes the state. There are few such changes: an arrow opens a heredoc, the
delimiter closes one, a delimiter is read, a body scan marks or clears a heredoc, and a
glob leaves its depth behind. Whether the call returns a token is another question: a
change stays where the claim does not count. Later facts about calls use only the list of
these changes.
-/

import ContextLexer.Proofs.Shell.Rulings
import ContextLexer.Proofs.Shell.Walk

namespace ContextLexer.Shell

/-- The kinds of the tokens that open and close heredocs. -/
def heredocBoundaries : List Kind := [.arrow, .arrowDash, .heredocEnd]

/-- The kind of an arrow with or without a dash. -/
def arrowKind (indented : Bool) : Kind := if indented then .arrowDash else .arrow

/-- The resolver that scans a part of a body. -/
def BodyPart.resolver : BodyPart → Resolver
  | .leading => .heredocBody
  | .trailing => .heredocContent

/-- The states that a call can lead to, and what it returns there. -/
inductive Change (s : State) (accepted : Accepted) (c : Cursor) : State → Claim Kind → Prop
  /-- Nothing changes. -/
  | kept {claim : Claim Kind} (other : ∀ found ∈ claim, found.1 ∉ heredocBoundaries) :
      Change s accepted c s claim
  /-- A glob leaves its depth behind. -/
  | globbed {depth : UInt8} {claim : Claim Kind}
      (asked : Resolver.extendedGlob.asked s accepted)
      (other : ∀ found ∈ claim, found.1 ∉ heredocBoundaries) :
      Change s accepted c { s with globDepth := depth } claim
  /-- An arrow opens a heredoc. -/
  | opened {indented : Bool} {d : Cursor} :
      Change s accepted c (s.push (.opened indented)) (some (arrowKind indented, d))
  /-- The delimiter closes the innermost heredoc. -/
  | closed {h : Heredoc} {outer : List Heredoc} {d : Cursor} (inner : s.heredocs = h :: outer) :
      Change s accepted c { s with heredocs := outer } (some (.heredocEnd, d))
  /-- The end of the text cuts a body off, and its heredoc is cleared. -/
  | cleared {part : BodyPart} {h : Heredoc} {outer : List Heredoc} {claim : Claim Kind}
      (inner : s.heredocs = h :: outer) (asked : part.resolver.asked s accepted)
      (returned : ∀ found ∈ claim, found.1 = part.final ∧ found.2.atEnd = true)
      (declined : claim = none → part.final ∉ accepted) :
      Change s accepted c { s with heredocs := .cleared :: outer } claim
  /-- A dollar sign in a body marks its heredoc as started. -/
  | started {h : Heredoc} {outer : List Heredoc} {claim : Claim Kind}
      (inner : s.heredocs = h :: outer) (asked : Resolver.heredocBody.asked s accepted)
      (raw : h.raw = false) (returned : ∀ found ∈ claim, found.1 ∉ heredocBoundaries)
      (declined : claim = none →
        .heredocBody ∉ accepted ∨ .heredocOpening ∉ accepted ∨ '\x00' ∈ c.place.ahead) :
      Change s accepted c { s with heredocs := h.start :: outer } claim
  /-- A delimiter is read; where there is none, its heredoc is left without one. -/
  | named {h : Heredoc} {outer : List Heredoc} {raw : Bool} {delimiter : List Char}
      {claim : Claim Kind} (inner : s.heredocs = h :: outer)
      (asked : Resolver.heredocStart.asked s accepted)
      (returned : ∀ found ∈ claim, found.1 = .heredocStart)
      (declined : claim = none → delimiter = []) :
      Change s accepted c { s with heredocs := { h with raw, delimiter } :: outer } claim

/-- What a call returns if a ruling decides it. -/
def Ruling.answer (accepted : Accepted) : Ruling → Claim Kind
  | claim kind c => if kind.isEmittable ∧ kind ∈ accepted then some (kind, c) else none
  | _ => none

/-- A state and a ruling that make one of the changes if they decide the call. -/
def Changes (s : State) (accepted : Accepted) (c : Cursor) (result : State × Ruling) : Prop :=
  Change s accepted c result.1 (result.2.answer accepted)

variable {s : State} {accepted : Accepted} {c : Cursor}

/-! ## Answers -/

namespace Ruling

theorem eq_of_answer {kind : Kind} {d : Cursor} {found : Kind × Cursor}
    (h : found ∈ (claim kind d).answer accepted) : found = (kind, d) := by
  rw [answer] at h
  split at h
  · exact (Option.some.inj h).symm
  · cases h

theorem not_mem_of_answer {kind : Kind} {d : Cursor} (emittable : kind.isEmittable = true)
    (h : (claim kind d).answer accepted = none) : kind ∉ accepted := by
  simpa [answer, emittable] using h

theorem Fits.answer {holds : Kind → Prop} {ruling : Ruling} {d : Cursor}
    (h : ruling.Fits holds d) : ∀ found ∈ ruling.answer accepted, holds found.1 := by
  intro found hfound
  cases ruling with
  | claim kind d =>
      obtain rfl := eq_of_answer hfound
      exact h
  | decline | pass | handOver => cases hfound

end Ruling

theorem emittable_middle (part : BodyPart) : part.middle.isEmittable = true := by
  cases part <;> rfl

theorem emittable_final (part : BodyPart) : part.final.isEmittable = true := by
  cases part <;> rfl

/-- A walk ends at a resolver that decides, with what that answers. -/
theorem walk_of_decides {resolver : Resolver} (back : List Resolver)
    (asked : resolver.asked s accepted) (decides : (resolver.run s accepted c).2.Decides) :
    walk accepted (resolver :: back) none s c =
      ⟨(resolver.run s accepted c).1, (resolver.run s accepted c).2.answer accepted⟩ := by
  rw [walk, if_neg (by simp), if_neg (not_not_intro asked)]
  generalize resolver.run s accepted c = result at decides
  obtain ⟨later, ruling⟩ := result
  cases ruling with
  | claim | decline => rfl
  | pass | handOver => exact decides.elim

/-- What a resolver claims is of other kinds if all of its kinds are. -/
theorem Resolver.Rules.answer_other {resolver : Resolver} {ruling : Ruling} {d : Cursor}
    (rules : resolver.Rules d ruling) (other : ∀ kind ∈ resolver.kinds, kind ∉ heredocBoundaries) :
    ∀ found ∈ ruling.answer accepted, found.1 ∉ heredocBoundaries :=
  fun found hfound => other found.1 (Ruling.Fits.answer rules found hfound)

/-- A resolver that leaves the state alone. -/
theorem changes_of_rules {resolver : Resolver} {ruling : Ruling} {d : Cursor}
    (rules : resolver.Rules d ruling) (other : ∀ kind ∈ resolver.kinds, kind ∉ heredocBoundaries) :
    Changes s accepted c (s, ruling) :=
  .kept (rules.answer_other other)

/-! ## Bodies -/

/-- What the resolver for a part makes of the result of its scan. -/
def State.afterBody (s : State) (accepted : Accepted) (outer : List Heredoc) :
    BodyResult → State × Ruling
  | (h, .part kind d) => ({ s with heredocs := h :: outer }, .claim kind d)
  | (h, .closing kind d) =>
    if kind ∈ accepted then ({ s with heredocs := outer }, .claim kind d)
    else ({ s with heredocs := h :: outer }, .decline)
  | (h, .nothing) => ({ s with heredocs := h :: outer }, .decline)

theorem State.readBody_of_cons {part : BodyPart} {h : Heredoc} {outer : List Heredoc}
    (inner : s.heredocs = h :: outer) (d : Cursor) :
    s.readBody part accepted d = s.afterBody accepted outer (Shell.readBody part h d) := by
  rw [State.readBody, inner]
  dsimp only
  generalize Shell.readBody part h d = result
  obtain ⟨h', finding⟩ := result
  cases finding <;> rfl

/-- A scan of a part decides the call. -/
theorem State.decides_afterBody (outer : List Heredoc) (result : BodyResult) :
    (s.afterBody accepted outer result).2.Decides := by
  obtain ⟨h, _ | _ | _⟩ := result
  · trivial
  · rw [State.afterBody]
    split <;> trivial
  · trivial

/-- What the resolver for a part claims is what the scan found. -/
theorem State.found_of_afterBody {outer : List Heredoc} {result : BodyResult} {kind : Kind}
    {d : Cursor} (claims : (s.afterBody accepted outer result).2 = .claim kind d) :
    result.2 = .part kind d ∨ result.2 = .closing kind d := by
  obtain ⟨h, found | found | _⟩ := result
  · cases claims
    exact .inl rfl
  · rw [State.afterBody] at claims
    split at claims
    · cases claims
      exact .inr rfl
    · cases claims
  · cases claims

theorem heredocs_eq {h : Heredoc} {outer : List Heredoc} (inner : s.heredocs = h :: outer) :
    { s with heredocs := h :: outer } = s := by
  rw [← inner]

theorem BodyPart.middle_other (part : BodyPart) : part.middle ∉ heredocBoundaries := by
  cases part <;> decide

/-- The heredoc that a part was scanned of, by what the gates of the resolvers tell. -/
theorem BodyPart.started_of_asked {part : BodyPart} {h : Heredoc} {outer : List Heredoc}
    (asked : part.resolver.asked s accepted) (inner : s.heredocs = h :: outer) :
    part = .trailing → h.started = true := by
  rintro rfl
  obtain ⟨-, ⟨h', hhead, hstarted⟩, -⟩ := asked
  rw [inner] at hhead
  cases hhead
  exact hstarted

/-- Marking a heredoc whose body was begun before changes nothing. -/
theorem Heredoc.Marked.eq_of_started {h h' : Heredoc} (marked : h.Marked h')
    (started : h.started = true) : h' = h := by
  cases marked with
  | same => rfl
  | started _ =>
      obtain ⟨raw, _, indented, delimiter⟩ := h
      cases started
      rfl

/-- A claim of a part that leaves its heredoc at most marked. -/
theorem changes_marked {part : BodyPart} {h h' : Heredoc} {outer : List Heredoc}
    {claim : Claim Kind} (inner : s.heredocs = h :: outer)
    (asked : part.resolver.asked s accepted) (marked : h.Marked h')
    (returned : ∀ found ∈ claim, found.1 ∉ heredocBoundaries)
    (declined : claim = none →
      .heredocBody ∉ accepted ∨ .heredocOpening ∉ accepted ∨ '\x00' ∈ c.place.ahead ∨
        part = .trailing) :
    Change s accepted c { s with heredocs := h' :: outer } claim := by
  have hstarted := BodyPart.started_of_asked asked inner
  cases marked with
  | same =>
      rw [heredocs_eq inner]
      exact .kept returned
  | started raw =>
      cases part with
      | trailing =>
          rw [Heredoc.Marked.eq_of_started (.started raw) (hstarted rfl), heredocs_eq inner]
          exact .kept returned
      | leading => exact .started inner asked raw returned (by simpa using declined)

theorem changes_afterBody {part : BodyPart} {h : Heredoc} {outer : List Heredoc} {d : Cursor}
    {result : BodyResult} (inner : s.heredocs = h :: outer)
    (asked : part.resolver.asked s accepted) (onward : d.place.ahead <:+ c.place.ahead)
    (ends : Ends part h d.place.ahead result) :
    Changes s accepted c (s.afterBody accepted outer result) := by
  have hstarted := BodyPart.started_of_asked asked inner
  obtain ⟨h', finding⟩ := result
  rw [Ends] at ends
  dsimp only at ends
  cases ends with
  | @cut d ended =>
      refine .cleared inner asked ?_ fun hnone => Ruling.not_mem_of_answer ?_ hnone
      · intro found hfound
        obtain rfl := Ruling.eq_of_answer hfound
        exact ⟨rfl, ended⟩
      · exact emittable_final part
  | @middle _ d marked =>
      refine changes_marked inner asked marked ?_ fun hnone => ?_
      · intro found hfound
        obtain rfl := Ruling.eq_of_answer hfound
        exact part.middle_other
      · have hnot := Ruling.not_mem_of_answer (emittable_middle part) hnone
        cases part with
        | leading => exact .inr (.inl hnot)
        | trailing => exact .inr (.inr (.inr rfl))
  | @last _ d leading marked =>
      subst leading
      refine changes_marked inner asked marked ?_ fun hnone => ?_
      · intro found hfound
        obtain rfl := Ruling.eq_of_answer hfound
        exact (by decide : Kind.heredocBody ∉ heredocBoundaries)
      · exact .inl (Ruling.not_mem_of_answer rfl hnone)
  | closing trailing marked fresh =>
      -- Only a heredoc that has been started gets to a scan of a later part.
      rw [marked.eq_of_started (hstarted trailing), hstarted trailing] at fresh
      cases fresh
  | nothing =>
      rw [State.afterBody, heredocs_eq inner]
      exact .kept (by simp [Ruling.answer])
  | lost marked nul =>
      refine changes_marked inner asked marked ?_ fun _ => .inr (.inr (.inl (onward.mem nul)))
      rintro _ ⟨⟩

theorem changes_readBody {part : BodyPart} {d : Cursor} (asked : part.resolver.asked s accepted)
    (onward : d.place.ahead <:+ c.place.ahead) :
    Changes s accepted c (s.readBody part accepted d) := by
  cases hinner : s.heredocs with
  | nil =>
      rw [State.readBody, hinner]
      exact .kept (by simp [Ruling.answer])
  | cons h outer =>
      rw [State.readBody_of_cons hinner]
      exact changes_afterBody hinner asked onward (readBody_ends part h d)

/-! ## The other resolvers that change the state -/

theorem changes_closeHeredoc {d : Cursor} (asked : Resolver.heredocEnd.asked s accepted) :
    Changes s accepted c (s.closeHeredoc d) := by
  rw [State.closeHeredoc]
  split
  · exact .kept (by simp [Ruling.answer])
  · next h outer hinner =>
    split
    · next after _ =>
      have hanswer : (Ruling.claim .heredocEnd after).answer accepted =
          some (.heredocEnd, after) := if_pos ⟨rfl, asked.1⟩
      rw [Changes, hanswer]
      exact .closed hinner
    · exact .kept (by simp [Ruling.answer])

/-- Reading a delimiter comes to a word, or leaves the heredoc without one. -/
theorem readDelimiter_cases (h : Heredoc) (d : Cursor) :
    (∃ raw delimiter after, readDelimiter h d = ({ h with raw, delimiter }, some after)) ∨
      ∃ raw, readDelimiter h d = ({ h with raw, delimiter := [] }, none) := by
  unfold readDelimiter
  dsimp only
  split
  · exact .inl ⟨_, _, _, rfl⟩
  · exact .inr ⟨_, rfl⟩

theorem changes_nameHeredoc {d : Cursor} (asked : Resolver.heredocStart.asked s accepted) :
    Changes s accepted c (s.nameHeredoc d) := by
  rw [State.nameHeredoc]
  split
  · exact .kept (by simp [Ruling.answer])
  · next h outer hinner =>
    rcases readDelimiter_cases h d with ⟨raw, delimiter, after, hread⟩ | ⟨raw, hread⟩
    · simp only [hread]
      refine .named hinner asked ?_ fun hnone => ?_
      · intro found hfound
        obtain rfl := Ruling.eq_of_answer hfound
        rfl
      · exact absurd asked.1 (Ruling.not_mem_of_answer rfl hnone)
    · simp only [hread]
      refine .named hinner asked ?_ fun _ => rfl
      rintro _ ⟨⟩

theorem changes_scanGlob {d : Cursor} (asked : Resolver.extendedGlob.asked s accepted) :
    Changes s accepted c (s.scanGlob d) :=
  .globbed asked ((rules_glob d s.globDepth).answer_other (by decide))

theorem changes_name {d : Cursor} :
    Changes s accepted c (s.afterName (resolveName accepted d), resolveName accepted d) := by
  have hfits := fits_name accepted d
  generalize resolveName accepted d = ruling at hfits
  cases ruling with
  | decline | pass | handOver => exact .kept (by simp [Ruling.answer])
  | claim kind after =>
      obtain ⟨hkind, haccepted⟩ := hfits
      by_cases harrow : kind = .arrow
      · subst harrow
        have hanswer : (Ruling.claim .arrow after).answer accepted = some (.arrow, after) :=
          if_pos ⟨rfl, haccepted (.inl rfl)⟩
        rw [Changes, hanswer]
        exact @Change.opened _ _ _ false _
      by_cases hdash : kind = .arrowDash
      · subst hdash
        have hanswer : (Ruling.claim .arrowDash after).answer accepted =
            some (.arrowDash, after) := if_pos ⟨rfl, haccepted (.inr rfl)⟩
        rw [Changes, hanswer]
        exact @Change.opened _ _ _ true _
      · have hkept : s.afterName (.claim kind after) = s := by
          unfold State.afterName
          split <;> simp_all
        rw [Changes, hkept]
        have hkind : kind = .variableName ∨ kind = .fileDescriptor ∨ kind = .extendedGlob := by
          simpa [Resolver.kinds, harrow, hdash] using hkind
        have hother : kind ∉ heredocBoundaries := by
          rcases hkind with rfl | rfl | rfl <;> decide
        refine .kept fun found hfound => ?_
        rw [Ruling.eq_of_answer hfound]
        exact hother

/-! ## The call -/

theorem changes_run {resolver : Resolver} {d : Cursor} (asked : resolver.asked s accepted)
    (onward : d.place.ahead <:+ c.place.ahead) :
    Changes s accepted c (resolver.run s accepted d) := by
  cases resolver with
  | concatenation => exact changes_of_rules (rules_concatenation accepted d) (by decide)
  | doubleHash => exact changes_of_rules (rules_doubleHash d) (by decide)
  | expansionSymbol => exact changes_of_rules (rules_symbol d) (by decide)
  | emptyValue => exact changes_of_rules (rules_emptyValue d) (by decide)
  | heredocBody => exact @changes_readBody _ _ _ .leading _ asked onward
  | heredocEnd => exact changes_closeHeredoc asked
  | heredocContent => exact @changes_readBody _ _ _ .trailing _ asked onward
  | heredocStart => exact changes_nameHeredoc asked
  | testOperator => exact changes_of_rules (rules_testOperator accepted d) (by decide)
  | name => exact changes_name
  | bareDollar => exact changes_of_rules (rules_bareDollar d) (by decide)
  | regex => exact changes_of_rules (rules_regex accepted d) (by decide)
  | extendedGlob => exact changes_scanGlob asked
  | expansionWord => exact changes_of_rules (rules_expansionWord d) (by decide)
  | braceRange => exact changes_of_rules (rules_braceRange d) (by decide)

/-- A walk makes one of the changes, wherever it begins. -/
theorem change_walk (resolvers : List Resolver) (target : Option Resolver) {d : Cursor}
    (onward : d.place.ahead <:+ c.place.ahead) :
    Change s accepted c (walk accepted resolvers target s d).state
      (walk accepted resolvers target s d).claim := by
  induction resolvers generalizing target d with
  | nil => exact .kept (by simp [walk])
  | cons resolver resolvers ih =>
      rw [walk]
      split
      · exact ih target onward
      split
      · exact ih none onward
      next hasked =>
      have hchanges : Changes s accepted c (resolver.run s accepted d) :=
        changes_run (by simpa using hasked) onward
      have hleaves := leavesTo_run accepted d s resolver
      generalize resolver.run s accepted d = result at hchanges hleaves
      obtain ⟨later, ruling⟩ := result
      -- A walk that goes on does so in the same state, so the change is still to come.
      cases ruling with
      | pass after =>
          obtain ⟨rfl, hafter⟩ := hleaves
          exact ih none (hafter.trans onward)
      | handOver target after =>
          obtain ⟨rfl, hafter⟩ := hleaves
          exact ih (some target) (hafter.trans onward)
      | decline => exact hchanges
      | claim kind after => exact hchanges

/-- Every call makes one of the changes. -/
theorem State.change_scan (s : State) (accepted : Accepted) (c : Cursor) :
    Change s accepted c (s.scan accepted c).state (s.scan accepted c).claim :=
  change_walk Resolver.order none List.suffix_rfl

end ContextLexer.Shell
