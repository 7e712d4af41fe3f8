/-
# Names and descriptors

A run of name characters is read in full and judged by the character behind it. Digits in front
of a redirection are a descriptor then, and what they are is told without looking at the names.
But a zero is taken for the parameter of that name before the run is read: the token ends in
front of it, and what counts as the run begins behind it. So a descriptor is returned whole just
in case it does not begin with a zero.
-/

import ContextLexer.Proofs.Sessions
import ContextLexer.Proofs.Shell.Walk

namespace ContextLexer.Shell

open Scanner (Sees)

variable {accepted : Accepted} {filler name digits space rest : List Char} {c : Char}
  {start : Place} {mark : Option Place}

/-! ## Calls for names -/

/-- The host accepts nothing but names, descriptors and arrows, and what steers the calls for
them. -/
def NamesOnly (accepted : Accepted) : Prop :=
  ∀ kind ∈ accepted,
    kind ∈ [.variableName, .fileDescriptor, .arrow, .arrowDash, .closingBrace, .newline]

namespace NamesOnly

variable (h : NamesOnly accepted)

include h

theorem not_mem {kind : Kind} (other : kind ∉ [Kind.variableName, .fileDescriptor, .arrow,
    .arrowDash, .closingBrace, .newline]) : kind ∉ accepted :=
  fun hkind => other (h kind hkind)

/-- A call for names comes to what the resolver for names makes of the input. -/
theorem scan_eq (opens : ∃ kind ∈ accepted, kind ∈ Resolver.name.gate) (s : State) (c : Cursor) :
    s.scan accepted c =
      ⟨s.afterName (resolveName accepted c), (resolveName accepted c).counted accepted⟩ := by
  have hasked : Resolver.name.asked s accepted := by
    obtain ⟨kind, haccepted, hkind⟩ := opens
    refine ⟨?_, h.not_mem (by decide), h.not_mem (by decide)⟩
    simp only [Resolver.gate, List.mem_cons, List.not_mem_nil, or_false] at hkind
    rcases hkind with rfl | rfl | rfl <;> simp [haccepted]
  refine State.scan_of_only hasked fun kind hkind other hother => ?_
  have hmem := h kind hkind
  simp only [List.mem_cons, List.not_mem_nil, or_false] at hmem
  rcases hmem with rfl | rfl | rfl | rfl | rfl | rfl <;> cases other <;>
    simp [Resolver.gate] at hother ⊢

/-- A call returns the name or the descriptor that the resolver claims, and keeps the state. -/
theorem sees_claim {kind : Kind} {p q : Place} {d : Cursor} {text : List Char}
    (names : kind ∈ [.variableName, .fileDescriptor]) (wanted : kind ∈ accepted)
    (claims : resolveName accepted (.begin p) = .claim kind d) (hstop : d.stop = q)
    (leads : d.start.Leads text q) (s : State) :
    Sees [.call accepted] ⟨s, p⟩ [(some (kind, text), q)] ⟨s, q⟩ := by
  simp only [List.mem_cons, List.not_mem_nil, or_false] at names
  rcases names with rfl | rfl <;>
  · have hscan := h.scan_eq ⟨_, wanted, by decide⟩ s (.begin p)
    rw [claims, Ruling.counted, if_pos ⟨rfl, wanted⟩] at hscan
    exact .claim hscan hstop leads

/-- A call declines where the resolver does, and keeps the state. -/
theorem sees_decline {p : Place} (opens : ∃ kind ∈ accepted, kind ∈ Resolver.name.gate)
    (declines : resolveName accepted (.begin p) = .decline) (s : State) :
    Sees [.call accepted] ⟨s, p⟩ [(none, p)] ⟨s, p⟩ := by
  have hscan := h.scan_eq opens s (.begin p)
  rw [declines] at hscan
  exact .decline hscan

end NamesOnly

/-! ## In front of the name -/

/-- What is ignored at a time in front of a name: a blank or a line continuation, or a line feed
unless a line may end here. -/
inductive FillerPiece (accepted : Accepted) : List Char → Prop
  | blank {c : Char} (hc : c ∈ [' ', '\t', '\r']) : FillerPiece accepted [c]
  | lineFeed (goesOn : .newline ∉ accepted) : FillerPiece accepted ['\n']
  | continuation : FillerPiece accepted ['\\', '\n']
  | returnContinuation : FillerPiece accepted ['\\', '\r', '\n']

/-- All that is ignored in front of a name. -/
inductive Filler (accepted : Accepted) : List Char → Prop
  | nothing : Filler accepted []
  | piece {first more : List Char} (piece : FillerPiece accepted first)
      (filler : Filler accepted more) : Filler accepted (first ++ more)

theorem Filler.of_blank (blank : ∀ c ∈ space, isBlank c = true) : Filler accepted space := by
  induction space with
  | nil => exact .nothing
  | cons c space ih =>
      have hblank : c = ' ' ∨ c = '\t' := by simpa [isBlank] using blank c (by simp)
      show Filler accepted ([c] ++ space)
      refine .piece (.blank ?_) (ih fun x hx => blank x (by simp [hx]))
      rcases hblank with rfl | rfl <;> simp

section

variable (outside : .expansionWord ∉ accepted)

include outside

/-- Outside of expansions a piece is ignored in one turn. -/
theorem fillerTurn_piece {text : List Char} (piece : FillerPiece accepted text)
    (before rest : List Char) :
    fillerTurn accepted (.begin (.between before (text ++ rest))) =
      .again (.begin (.between (before ++ text) rest)) := by
  cases piece with
  | @blank c hc =>
      have hfiller : isNameFiller accepted c = true := by
        simp only [List.mem_cons, List.not_mem_nil, or_false] at hc
        rcases hc with rfl | rfl | rfl <;> simp [isNameFiller, outside]
      simp [fillerTurn, Cursor.begin, Cursor.ignore, hfiller]
  | lineFeed goesOn =>
      have hfiller : isNameFiller accepted '\n' = true := by simp [isNameFiller, outside, goesOn]
      simp [fillerTurn, Cursor.begin, Cursor.ignore, hfiller]
  | continuation | returnContinuation =>
      simp [fillerTurn, Cursor.begin, Cursor.ignore, isNameFiller]

/-- What is ignored in front of a name does not belong to the token. -/
theorem skipFiller_between (ignored : Filler accepted filler) (before rest : List Char) :
    skipFiller accepted (.begin (.between before (filler ++ rest))) =
      skipFiller accepted (.begin (.between (before ++ filler) rest)) := by
  induction ignored generalizing before with
  | nothing => simp
  | @piece first more piece _ ih =>
      rw [skipFiller, List.append_assoc, Turn.run_of_again (fillerTurn_piece outside piece _ _),
        ← List.append_assoc]
      exact ih (before ++ first)

end

/-- Nothing is ignored where a name, or anything else, has come. -/
theorem skipFiller_stop (stops : ∀ c ∈ rest.head?, isNameFiller accepted c = false ∧ c ≠ '\\')
    (before : List Char) :
    skipFiller accepted (.begin (.between before rest)) = .ok (.begin (.between before rest)) := by
  obtain ⟨hfiller, hslash⟩ := @Place.lookahead_between before rest
    (fun c => isNameFiller accepted c = false ∧ c ≠ '\\')
    ⟨isNameFiller_nul accepted, by decide⟩ stops
  refine Turn.run_of_done ?_
  simp [fillerTurn, Cursor.begin, hfiller, hslash]
  rfl

/-! ## The run -/

/-- A run of name characters is a descriptor or a name, by the character behind it. -/
theorem readName_between (nonempty : name ≠ [])
    (belongs : ∀ c ∈ name, isNameCharacter c = true)
    (stops : ∀ c ∈ rest.head?, isNameCharacter c = false) (before : List Char) :
    readName accepted ⟨.between before (name ++ rest), start, mark⟩ =
      let after : Cursor := ⟨.between (before ++ name) rest, start, mark⟩
      let isNumber := name.all Char.isDigit
      if isNumber ∧ .fileDescriptor ∈ accepted ∧ (after.sees '>' ∨ after.sees '<') then
        .claim .fileDescriptor after
      else if .variableName ∈ accepted then claimName accepted isNumber after
      else .decline := by
  obtain ⟨first, more, rfl⟩ := List.exists_cons_of_ne_nil nonempty
  have hfirst : isNameCharacter first = true := belongs first (by simp)
  rw [readName, if_pos (by simpa using hfirst), Cursor.consumeWhile_between belongs stops,
    Place.ahead_between, takeWhile_run belongs stops]

/-- Behind what is ignored the resolver looks for a parameter, and reads on behind it. -/
theorem NamesOnly.resolveName_between (h : NamesOnly accepted) (ignored : Filler accepted filler)
    (stops : ∀ c ∈ rest.head?, isNameFiller accepted c = false ∧ c ≠ '\\') (before : List Char) :
    resolveName accepted (.begin (.between before (filler ++ rest))) =
      let p := Place.between (before ++ filler) rest
      if isSpecialParameter p.lookahead then
        if makesOperand p.next.lookahead then .decline
        else readArrowOrName accepted ⟨p.next, p, some p⟩
      else readArrowOrName accepted ⟨p, p, none⟩ := by
  have hword : Kind.expansionWord ∉ accepted := h.not_mem (by decide)
  have hglob : Kind.extendedGlob ∉ accepted := h.not_mem (by decide)
  rw [resolveName, skipFiller_between hword ignored, skipFiller_stop stops]
  simp [Cursor.begin, hword, hglob]

/-! ## Words -/

theorem isNameFiller_of_isNameCharacter (h : isNameCharacter c = true) :
    isNameFiller accepted c = false ∧ c ≠ '\\' := by
  have hne {x : Char} (hx : isNameCharacter x = false) : c ≠ x := ne_of_test hx h
  simp (disch := decide) [isNameFiller, hne]

theorem makesOperand_of_isNameCharacter (h : isNameCharacter c = true) : makesOperand c = false := by
  have hne {x : Char} (hx : isNameCharacter x = false) : c ≠ x := ne_of_test hx h
  simp (disch := decide) [makesOperand, hne]

theorem isNameFiller_of_isSpecialParameter (h : isSpecialParameter c = true) :
    isNameFiller accepted c = false ∧ c ≠ '\\' := by
  have hne {x : Char} (hx : isSpecialParameter x = false) : c ≠ x := ne_of_test hx h
  simp (disch := decide) [isNameFiller, hne]

/-- A name character does not begin an arrow. -/
theorem readArrowOrName_of_isNameCharacter (hc : isNameCharacter c = true) (before : List Char)
    (rest : List Char) (start : Place) (mark : Option Place) :
    readArrowOrName accepted ⟨.between before (c :: rest), start, mark⟩ =
      readName accepted ⟨.between before (c :: rest), start, mark⟩ := by
  have hc : c ≠ '<' := ne_of_test (by decide) hc
  exact if_neg (by simp [hc])

/-- Behind what is ignored a name is read from its first character on, unless that may name a
parameter by itself. -/
theorem NamesOnly.resolveName_word (h : NamesOnly accepted) (ignored : Filler accepted filler)
    (hc : isNameCharacter c = true) (ordinary : isSpecialParameter c = false)
    (before rest : List Char) :
    let p := Place.between (before ++ filler) (c :: rest)
    resolveName accepted (.begin (.between before (filler ++ c :: rest))) =
      readName accepted ⟨p, p, none⟩ := by
  intro p
  have hstops : ∀ x ∈ (c :: rest).head?, isNameFiller accepted x = false ∧ x ≠ '\\' := by
    rintro _ ⟨⟩
    exact isNameFiller_of_isNameCharacter hc
  rw [h.resolveName_between ignored hstops before]
  dsimp only
  rw [if_neg (by simp [ordinary]), readArrowOrName_of_isNameCharacter hc]

/-- Behind what names a parameter by itself the resolver reads on, unless an operator makes it an
operand. -/
theorem NamesOnly.resolveName_parameter (h : NamesOnly accepted) (ignored : Filler accepted filler)
    (special : isSpecialParameter c = true) (before rest : List Char) :
    let p := Place.between (before ++ filler) (c :: rest)
    resolveName accepted (.begin (.between before (filler ++ c :: rest))) =
      if makesOperand p.next.lookahead then .decline
      else readArrowOrName accepted ⟨p.next, p, some p⟩ := by
  intro p
  have hstops : ∀ x ∈ (c :: rest).head?, isNameFiller accepted x = false ∧ x ≠ '\\' := by
    rintro _ ⟨⟩
    exact isNameFiller_of_isSpecialParameter special
  rw [h.resolveName_between ignored hstops before]
  exact if_pos special

/-- So a word is read behind it, but the token begins in front of it. -/
theorem NamesOnly.resolveName_parameter_word (h : NamesOnly accepted)
    (ignored : Filler accepted filler) {x : Char} (special : isSpecialParameter x = true)
    (hc : isNameCharacter c = true) (before rest : List Char) :
    let p := Place.between (before ++ filler) (x :: c :: rest)
    resolveName accepted (.begin (.between before (filler ++ x :: c :: rest))) =
      readName accepted ⟨.between (before ++ filler ++ [x]) (c :: rest), p, some p⟩ := by
  intro p
  have hoperand : makesOperand c = false := makesOperand_of_isNameCharacter hc
  rw [h.resolveName_parameter ignored special]
  simp only [Place.next_between_cons, Place.lookahead_between_cons, hoperand, Bool.false_eq_true,
    if_false]
  exact readArrowOrName_of_isNameCharacter hc _ _ _ _

/-! ## Descriptors -/

/-- The host accepts descriptors, and nothing else but names. -/
structure AcceptsDescriptors (accepted : Accepted) : Prop where
  descriptor : .fileDescriptor ∈ accepted
  only : ∀ kind ∈ accepted, kind ∈ [.fileDescriptor, .variableName]

/-- The characters of redirections, with which descriptors end. -/
def Redirects (c : Char) : Prop := c = '<' ∨ c = '>'

theorem isNameCharacter_of_isDigit (h : c.isDigit = true) : isNameCharacter c = true := by
  simp [isNameCharacter, h]

/-- The zero is the only digit that names a parameter. -/
theorem isSpecialParameter_of_isDigit (hdigit : c.isDigit = true) (hzero : c ≠ '0') :
    isSpecialParameter c = false := by
  have hne {x : Char} (hx : x.isDigit = false) : c ≠ x := ne_of_test hx hdigit
  simp (disch := decide) [isSpecialParameter, hzero, hne]

namespace AcceptsDescriptors

variable (h : AcceptsDescriptors accepted)

include h

theorem not_mem {kind : Kind} (other : kind ∉ [Kind.fileDescriptor, .variableName]) :
    kind ∉ accepted := fun hkind => other (h.only kind hkind)

theorem namesOnly : NamesOnly accepted := by
  intro kind hkind
  have hmem := h.only kind hkind
  simp only [List.mem_cons, List.not_mem_nil, or_false] at hmem
  rcases hmem with rfl | rfl <;> decide

/-- Behind spaces and tabs a zero is taken for a parameter, and other digits are not. -/
theorem resolveName_between (blank : ∀ c ∈ space, isBlank c = true)
    (hdigit : c.isDigit = true) (before rest : List Char) :
    resolveName accepted (.begin (.between before (space ++ c :: rest))) =
      let p := Place.between (before ++ space) (c :: rest)
      if c = '0' then
        if makesOperand p.next.lookahead then .decline
        else readName accepted ⟨p.next, p, some p⟩
      else readName accepted ⟨p, p, none⟩ := by
  by_cases hzero : c = '0'
  · subst hzero
    have harrow : Kind.arrow ∉ accepted := h.not_mem (by decide)
    rw [h.namesOnly.resolveName_parameter (.of_blank blank) (by decide)]
    simp [readArrowOrName, harrow]
  · rw [h.namesOnly.resolveName_word (.of_blank blank) (isNameCharacter_of_isDigit hdigit)
      (isSpecialParameter_of_isDigit hdigit hzero)]
    exact (if_neg hzero).symm

/-- A call returns the descriptor that the resolver for names claims, and keeps the state. -/
theorem sees_descriptor {p : Place} {c : Cursor} {before text : List Char}
    (claims : resolveName accepted (.begin p) = .claim .fileDescriptor c)
    (hstart : c.start = .between before (text ++ rest))
    (hstop : c.stop = .between (before ++ text) rest) (s : State) :
    Sees [.call accepted] ⟨s, p⟩ [(some (.fileDescriptor, text), .between (before ++ text) rest)]
      ⟨s, .between (before ++ text) rest⟩ :=
  h.namesOnly.sees_claim (by decide) h.descriptor claims hstop
    ⟨before, rest, hstart, rfl⟩ s

section

variable (redirects : Redirects c)

include redirects

/-- Digits in front of a redirection are a descriptor, wherever they began. -/
theorem readName_digits (nonempty : digits ≠ []) (numeric : ∀ d ∈ digits, d.isDigit = true)
    (before rest : List Char) :
    readName accepted ⟨.between before (digits ++ c :: rest), start, mark⟩ =
      .claim .fileDescriptor ⟨.between (before ++ digits) (c :: rest), start, mark⟩ := by
  have hstops : ∀ x ∈ (c :: rest).head?, isNameCharacter x = false := by
    rintro _ ⟨⟩
    rcases redirects with rfl | rfl <;> decide
  rw [readName_between nonempty (fun d hd => isNameCharacter_of_isDigit (numeric d hd)) hstops]
  refine if_pos ⟨List.all_eq_true.mpr numeric, h.descriptor, ?_⟩
  rcases redirects with rfl | rfl <;> simp

/-- There is no descriptor without digits. -/
theorem readName_redirection (before rest : List Char) :
    readName accepted ⟨.between before (c :: rest), start, mark⟩ = .decline := by
  have hword : Kind.expansionWord ∉ accepted := h.not_mem (by decide)
  have hglob : Kind.extendedGlob ∉ accepted := h.not_mem (by decide)
  have hname : isNameCharacter c = false := by rcases redirects with rfl | rfl <;> decide
  have hbrace : c ≠ '{' := by rcases redirects with rfl | rfl <;> decide
  simp [readName, hname, hbrace, hword, hglob]

/-- Behind a zero the resolver reads on, but the token ends in front of it. -/
theorem resolveName_zero (blank : ∀ c ∈ space, isBlank c = true)
    (numeric : ∀ d ∈ digits, d.isDigit = true) (before rest : List Char) :
    resolveName accepted (.begin (.between before (space ++ '0' :: (digits ++ c :: rest)))) =
      let first := Place.between (before ++ space) ('0' :: (digits ++ c :: rest))
      readName accepted
        ⟨.between (before ++ space ++ ['0']) (digits ++ c :: rest), first, some first⟩ := by
  have hoperand : ∀ x ∈ (digits ++ c :: rest).head?, makesOperand x = false := by
    intro x hx
    cases digits with
    | nil =>
        obtain rfl : c = x := Option.some.inj hx
        rcases redirects with rfl | rfl <;> decide
    | cons d digits =>
        obtain rfl : d = x := Option.some.inj hx
        exact makesOperand_of_isNameCharacter (isNameCharacter_of_isDigit (numeric d (by simp)))
  have hnext := @Place.lookahead_between (before ++ space ++ ['0']) (digits ++ c :: rest)
    (makesOperand · = false) (by decide) hoperand
  rw [h.resolveName_between blank (by decide)]
  simp only [if_true, Place.next_between_cons, hnext, Bool.false_eq_true, if_false]

/-- Digits that do not begin with a zero are returned in full. -/
theorem sees_digits (blank : ∀ c ∈ space, isBlank c = true) (nonempty : digits ≠ [])
    (numeric : ∀ d ∈ digits, d.isDigit = true) (nonzero : digits.head? ≠ some '0') (s : State)
    (before rest : List Char) :
    let stop := Place.between (before ++ space ++ digits) (c :: rest)
    Sees [.call accepted] ⟨s, .between before (space ++ (digits ++ c :: rest))⟩
      [(some (.fileDescriptor, digits), stop)] ⟨s, stop⟩ := by
  obtain ⟨d, more, rfl⟩ := List.exists_cons_of_ne_nil nonempty
  have hd : d ≠ '0' := fun hd => nonzero (by rw [hd]; rfl)
  have hclaim := h.resolveName_between blank (numeric d (by simp)) before (more ++ c :: rest)
  simp only [hd, if_false] at hclaim
  rw [← List.cons_append, h.readName_digits redirects nonempty numeric] at hclaim
  exact h.sees_descriptor hclaim rfl rfl s

/-- Behind a single zero there is nothing left of the run, and the call declines. -/
theorem sees_zero (blank : ∀ c ∈ space, isBlank c = true) (s : State) (before rest : List Char) :
    let p := Place.between before (space ++ '0' :: c :: rest)
    Sees [.call accepted] ⟨s, p⟩ [(none, p)] ⟨s, p⟩ := by
  have hnone : ∀ d ∈ ([] : List Char), d.isDigit = true := by simp
  have hdecline := h.resolveName_zero redirects blank hnone before rest
  rw [List.nil_append, h.readName_redirection redirects] at hdecline
  exact h.namesOnly.sees_decline ⟨_, h.descriptor, by decide⟩ hdecline s

/-- More digits behind a zero make a run, but the token has ended in front of the zero. -/
theorem sees_empty (blank : ∀ c ∈ space, isBlank c = true) (nonempty : digits ≠ [])
    (numeric : ∀ d ∈ digits, d.isDigit = true) (s : State) (before rest : List Char) :
    let first := Place.between (before ++ space) ('0' :: (digits ++ c :: rest))
    Sees [.call accepted] ⟨s, .between before (space ++ '0' :: (digits ++ c :: rest))⟩
      [(some (.fileDescriptor, []), first)] ⟨s, first⟩ := by
  intro first
  have hclaim := h.resolveName_zero redirects blank numeric before rest
  rw [h.readName_digits redirects nonempty numeric] at hclaim
  have hfirst : first = .between (before ++ space ++ []) ([] ++ '0' :: (digits ++ c :: rest)) := by
    rw [List.append_nil]
    rfl
  rw [hfirst]
  exact h.sees_descriptor hclaim rfl hfirst s

/-- Digits in front of a redirection are returned as a descriptor, with nothing of the spaces and
tabs in front of them, if they do not begin with a zero. A zero alone is declined, and in front
of more digits it leaves an empty descriptor. The state is kept. -/
theorem descriptor_extent (blank : ∀ c ∈ space, isBlank c = true) (nonempty : digits ≠ [])
    (numeric : ∀ d ∈ digits, d.isDigit = true) (s : State) (before rest : List Char) :
    let p := Place.between before (space ++ (digits ++ c :: rest))
    let first := Place.between (before ++ space) (digits ++ c :: rest)
    let stop := Place.between (before ++ space ++ digits) (c :: rest)
    (digits.head? ≠ some '0' →
      Sees [.call accepted] ⟨s, p⟩ [(some (.fileDescriptor, digits), stop)] ⟨s, stop⟩) ∧
    (digits = ['0'] → Sees [.call accepted] ⟨s, p⟩ [(none, p)] ⟨s, p⟩) ∧
    (digits.head? = some '0' → digits ≠ ['0'] →
      Sees [.call accepted] ⟨s, p⟩ [(some (.fileDescriptor, []), first)] ⟨s, first⟩) := by
  intro p first stop
  refine ⟨fun hhead => ?_, fun hzero => ?_, fun hhead hlonger => ?_⟩
  · exact h.sees_digits redirects blank nonempty numeric hhead s before rest
  · cases hzero
    exact h.sees_zero redirects blank s before rest
  · obtain ⟨more, rfl⟩ := List.head?_eq_some_iff.mp hhead
    have hsome : more ≠ [] := by
      rintro rfl
      exact hlonger rfl
    have hmore : ∀ d ∈ more, d.isDigit = true := fun d hd => numeric d (by simp [hd])
    exact h.sees_empty redirects blank hsome hmore s before rest

end

end AcceptsDescriptors

/-- The host accepts descriptors and names. -/
def descriptorsAndNames : Accepted := .ofList [.fileDescriptor, .variableName]

theorem acceptsDescriptors_names : AcceptsDescriptors descriptorsAndNames where
  descriptor := by simp [descriptorsAndNames]
  only := by simp [descriptorsAndNames]

/-- A descriptor of two digits, where names are accepted as well. -/
theorem descriptor_extent_ten :
    AcceptsDescriptors descriptorsAndNames ∧ Redirects '<' ∧
    (∀ c ∈ [' ', '\t'], isBlank c = true) ∧ ['1', '0'] ≠ [] ∧
    (∀ d ∈ ['1', '0'], d.isDigit = true) ∧
    Sees [.call descriptorsAndNames]
      ⟨State.initial, .between ['x'] ([' ', '\t'] ++ (['1', '0'] ++ '<' :: ['y']))⟩
      [(some (.fileDescriptor, ['1', '0']),
        .between (['x'] ++ [' ', '\t'] ++ ['1', '0']) ['<', 'y'])]
      ⟨State.initial, .between (['x'] ++ [' ', '\t'] ++ ['1', '0']) ['<', 'y']⟩ := by
  have hredirects : Redirects '<' := .inl rfl
  have hblank : ∀ c ∈ [' ', '\t'], isBlank c = true := List.all_eq_true.mp rfl
  have hnonempty : ['1', '0'] ≠ [] := by decide
  have hnumeric : ∀ d ∈ ['1', '0'], d.isDigit = true := List.all_eq_true.mp rfl
  have hextent := acceptsDescriptors_names.descriptor_extent hredirects hblank hnonempty hnumeric
    State.initial ['x'] ['y']
  exact ⟨acceptsDescriptors_names, hredirects, hblank, hnonempty, hnumeric,
    hextent.1 (by decide)⟩

/-- The descriptor of the standard input is not recognised, and one with a leading zero is empty
and leaves the host where it was. -/
theorem zero_is_no_descriptor :
    Sees [.call descriptorsAndNames] ⟨State.initial, .between [] ['0', '<', 'x']⟩
      [(none, .between [] ['0', '<', 'x'])] ⟨State.initial, .between [] ['0', '<', 'x']⟩ ∧
    Sees [.call descriptorsAndNames] ⟨State.initial, .between [] ['0', '1', '<', 'x']⟩
      [(some (.fileDescriptor, []), .between [] ['0', '1', '<', 'x'])]
      ⟨State.initial, .between [] ['0', '1', '<', 'x']⟩ :=
  ⟨rfl, rfl⟩

end ContextLexer.Shell
