/-
# Names of variables

A run of name characters is the name of a variable just in case a mark stands behind it, and
which texts are marks depends on whether an expansion may end here. Blanks, line feeds and line
continuations in front of it are no part of the token.

But what may name a special parameter is read in front of the run, and unless it is found to be
an operand the run is read behind it as if nothing had been there, while the token still begins
in front. So an operator in front of a marked name becomes part of the name. Nothing else does:
all that is behind the first character of a variable are name characters.
-/

import ContextLexer.Proofs.Shell.Name

namespace ContextLexer.Shell

open Scanner (Sees)

variable {accepted : Accepted} {filler name text rest : List Char} {c : Char} {start : Place}
  {mark : Option Place} {isNumber : Bool}

/-! ## What marks a variable -/

/-- A text that tells that the name in front of it is that of a variable. -/
inductive MarksVariable (accepted : Accepted) : List Char → Prop
  | operator {c : Char} {rest : List Char} (hc : c ∈ ['=', '[', '%', '@', '#']) :
      MarksVariable accepted (c :: rest)
  | colon {rest : List Char} (unbraced : .closingBrace ∉ accepted) :
      MarksVariable accepted (':' :: rest)
  | dash {rest : List Char} (braced : .closingBrace ∈ accepted) :
      MarksVariable accepted ('-' :: rest)
  | append {c : Char} {rest : List Char} (hc : c ∈ ['=', ':']) :
      MarksVariable accepted ('+' :: c :: rest)
  | plus {rest : List Char} (braced : .closingBrace ∈ accepted) :
      MarksVariable accepted ('+' :: rest)
  | question {c : Char} {rest : List Char} (letter : c.isAlpha = true) :
      MarksVariable accepted ('?' :: c :: rest)

/-- A marked name is claimed, and ends in front of the mark. -/
theorem claimName_of_marks (marks : MarksVariable accepted rest)
    (worded : rest.head? = some '#' → isNumber = false) (before : List Char) (start : Place)
    (mark : Option Place) :
    ∃ d, claimName accepted isNumber ⟨.between before rest, start, mark⟩ =
      .claim .variableName d ∧ d.start = start ∧ d.stop = .between before rest := by
  cases marks with
  | @operator c rest hc =>
      simp only [List.mem_cons, List.not_mem_nil, or_false] at hc
      rcases hc with rfl | rfl | rfl | rfl | rfl <;> simp_all [claimName, Cursor.stop]
  | colon unbraced => simp [claimName, Cursor.stop, unbraced]
  | dash braced => simp [claimName, Cursor.stop, braced]
  | @append c rest hc =>
      simp only [List.mem_cons, List.not_mem_nil, or_false] at hc
      rcases hc with rfl | rfl <;> simp [claimName, Ruling.claimIf, Cursor.stop]
  | plus braced => simp [claimName, Ruling.claimIf, Cursor.stop, braced]
  | question letter => simp [claimName, Ruling.claimIf, Cursor.stop, letter]

/-- Only marked names are claimed. -/
theorem marks_of_claimName {before : List Char} {kind : Kind} {d : Cursor}
    (claims : claimName accepted isNumber ⟨.between before rest, start, mark⟩ = .claim kind d) :
    MarksVariable accepted rest ∧ (rest.head? = some '#' → isNumber = false) := by
  rw [claimName] at claims
  dsimp only at claims
  split at claims
  · next hplus =>
    obtain ⟨more, rfl⟩ := Place.exists_cons_of_lookahead (by decide) hplus
    refine ⟨?_, by simp⟩
    have hfollows := (Ruling.claimIf_eq_claim.mp claims).1
    simp only [Cursor.markEnd_mk, Cursor.consume_mk, Cursor.sees_mk, Place.next_between_cons,
      Bool.or_eq_true, decide_eq_true_eq] at hfollows
    rcases hfollows with (hequal | hcolon) | hbraced
    · obtain ⟨_, rfl⟩ := Place.exists_cons_of_lookahead (by decide) hequal
      exact .append (by simp)
    · obtain ⟨_, rfl⟩ := Place.exists_cons_of_lookahead (by decide) hcolon
      exact .append (by simp)
    · exact .plus hbraced
  split at claims
  · next hoperator =>
    simp only [List.mem_cons, List.not_mem_nil, or_false] at hoperator
    rcases hoperator with hx | hx | hx | hx <;>
      obtain ⟨_, rfl⟩ := Place.exists_cons_of_lookahead (by decide) hx <;>
      exact ⟨.operator (by simp), by simp⟩
  split at claims
  · next hcolon =>
    obtain ⟨_, rfl⟩ := Place.exists_cons_of_lookahead (by decide) hcolon.1
    exact ⟨.colon (by simpa using hcolon.2), by simp⟩
  split at claims
  · next hhash =>
    obtain ⟨_, rfl⟩ := Place.exists_cons_of_lookahead (by decide) hhash.1
    exact ⟨.operator (by simp), fun _ => by simpa using hhash.2⟩
  split at claims
  · next hdash =>
    obtain ⟨_, rfl⟩ := Place.exists_cons_of_lookahead (by decide) hdash.1
    exact ⟨.dash (by simpa using hdash.2), by simp⟩
  split at claims
  · next hquestion =>
    obtain ⟨more, rfl⟩ := Place.exists_cons_of_lookahead (by decide) hquestion
    have hletter := (Ruling.claimIf_eq_claim.mp claims).1
    cases more with
    | nil => simp at hletter
    | cons x more => exact ⟨.question (by simpa using hletter), by simp⟩
  · cases claims

/-- A name is claimed as a variable or not at all. -/
theorem claimName_decline_or_claim (accepted : Accepted) (isNumber : Bool) (d : Cursor) :
    claimName accepted isNumber d = .decline ∨
      ∃ e, claimName accepted isNumber d = .claim .variableName e := by
  have hclaimIf (condition : Bool) (e : Cursor) :
      Ruling.claimIf condition .variableName e = .decline ∨
        ∃ f, Ruling.claimIf condition .variableName e = .claim .variableName f := by
    cases condition with
    | false => exact .inl rfl
    | true => exact .inr ⟨e, rfl⟩
  rw [claimName]
  dsimp only
  split
  · exact hclaimIf _ _
  split
  · exact .inr ⟨_, rfl⟩
  split
  · exact .inr ⟨_, rfl⟩
  split
  · exact .inr ⟨_, rfl⟩
  split
  · exact .inr ⟨_, rfl⟩
  split
  · exact hclaimIf _ _
  · exact .inl rfl

theorem claimName_of_unmarked (unmarked : ¬ MarksVariable accepted rest) (isNumber : Bool)
    (before : List Char) (start : Place) (mark : Option Place) :
    claimName accepted isNumber ⟨.between before rest, start, mark⟩ = .decline := by
  rcases claimName_decline_or_claim accepted isNumber ⟨.between before rest, start, mark⟩ with
    hdeclines | ⟨d, hclaims⟩
  · exact hdeclines
  · exact absurd (marks_of_claimName hclaims).1 unmarked

/-! ## Names in front of a mark -/

/-- A whole run of name characters with a mark behind it. A hash sign is a mark only if they are
not all digits. -/
structure NamesVariable (accepted : Accepted) (name rest : List Char) : Prop where
  nonempty : name ≠ []
  belongs : ∀ c ∈ name, isNameCharacter c = true
  ends : ∀ c ∈ rest.head?, isNameCharacter c = false
  marks : MarksVariable accepted rest
  worded : rest.head? = some '#' → name.all Char.isDigit = false

/-- No mark is a redirection. -/
theorem MarksVariable.not_redirects (h : MarksVariable accepted rest) :
    ∀ c ∈ rest.head?, ¬ Redirects c := by
  cases h with
  | @operator c rest hc =>
      simp only [List.mem_cons, List.not_mem_nil, or_false] at hc
      rcases hc with rfl | rfl | rfl | rfl | rfl <;> simp [Redirects]
  | _ => simp [Redirects]

/-- A marked name is claimed. -/
theorem NamesVariable.readName_claims (h : NamesVariable accepted name rest)
    (wanted : .variableName ∈ accepted) (before : List Char) (start : Place)
    (mark : Option Place) :
    ∃ d, readName accepted ⟨.between before (name ++ rest), start, mark⟩ =
      .claim .variableName d ∧ d.start = start ∧ d.stop = .between (before ++ name) rest := by
  have hplain := @Place.lookahead_between (before ++ name) rest (fun c => ¬ Redirects c)
    (by simp [Redirects]) h.marks.not_redirects
  rw [readName_between h.nonempty h.belongs h.ends]
  dsimp only
  rw [if_neg, if_pos wanted]
  · exact claimName_of_marks h.marks h.worded _ _ _
  · rintro ⟨-, -, hredirects⟩
    exact hplain (by simpa [Redirects, or_comm] using hredirects)

/-- What is claimed as a variable is a marked name. -/
theorem exists_name_of_readName {before ahead : List Char} {d : Cursor}
    (claims : readName accepted ⟨.between before ahead, start, mark⟩ = .claim .variableName d) :
    ∃ name rest, ahead = name ++ rest ∧ NamesVariable accepted name rest := by
  obtain ⟨name, rest, rfl, belongs, ends⟩ := exists_run isNameCharacter ahead
  have nonempty : name ≠ [] := by
    rintro rfl
    have hother := @Place.lookahead_between before rest (isNameCharacter · = false) (by decide) ends
    rw [readName, List.nil_append, Cursor.lookahead_mk, hother] at claims
    simp only [Bool.false_eq_true, if_false] at claims
    split at claims
    · cases claims
    split at claims
    · cases claims
    split at claims <;> cases claims
  rw [readName_between nonempty belongs ends] at claims
  dsimp only at claims
  split at claims
  · cases claims
  split at claims
  · obtain ⟨marks, worded⟩ := marks_of_claimName claims
    exact ⟨name, rest, rfl, nonempty, belongs, ends, marks, worded⟩
  · cases claims

/-! ## Behind what is ignored -/

/-- How a text goes on behind all that is ignored in front of a name. -/
inductive BehindFiller (accepted : Accepted) : List Char → Prop
  /-- Something comes that is not ignored. -/
  | word {text : List Char}
      (stops : ∀ c ∈ text.head?, isNameFiller accepted c = false ∧ c ≠ '\\') :
      BehindFiller accepted text
  /-- A backslash is the end of the text. -/
  | backslash : BehindFiller accepted ['\\']
  /-- A backslash does not continue the line. -/
  | broken {c : Char} {rest : List Char} (unlined : c ≠ '\n')
      (unreturned : c = '\r' → rest.head? ≠ some '\n') : BehindFiller accepted ('\\' :: c :: rest)

theorem FillerPiece.of_isNameFiller (h : isNameFiller accepted c = true) :
    FillerPiece accepted [c] := by
  simp only [isNameFiller, Bool.and_eq_true, Bool.or_eq_true, decide_eq_true_eq] at h
  obtain ⟨-, ((rfl | rfl) | rfl) | ⟨rfl, goesOn⟩⟩ := h
  · exact .blank (by simp)
  · exact .blank (by simp)
  · exact .blank (by simp)
  · exact .lineFeed goesOn

theorem FillerPiece.length_pos (h : FillerPiece accepted text) : 0 < text.length := by
  cases h <;> exact Nat.succ_pos _

/-- A text goes on with a piece that is ignored, unless it is one behind all of them. -/
theorem behindFiller_or_piece (accepted : Accepted) (text : List Char) :
    BehindFiller accepted text ∨
      ∃ first more, FillerPiece accepted first ∧ text = first ++ more := by
  cases text with
  | nil => exact .inl (.word (by simp))
  | cons c text =>
      by_cases hfiller : isNameFiller accepted c = true
      · exact .inr ⟨[c], text, .of_isNameFiller hfiller, rfl⟩
      by_cases hslash : c = '\\'
      · subst hslash
        cases text with
        | nil => exact .inl .backslash
        | cons d more =>
            by_cases hline : d = '\n'
            · subst hline
              exact .inr ⟨_, more, .continuation, rfl⟩
            by_cases hreturn : d = '\r' ∧ more.head? = some '\n'
            · obtain ⟨rfl, hmore⟩ := hreturn
              obtain ⟨rest, rfl⟩ := List.head?_eq_some_iff.mp hmore
              exact .inr ⟨_, rest, .returnContinuation, rfl⟩
            · exact .inl (.broken hline fun hd hmore => hreturn ⟨hd, hmore⟩)
      · refine .inl (.word ?_)
        rintro _ ⟨⟩
        exact ⟨by simpa using hfiller, hslash⟩

/-- Every text begins with all that is ignored in front of a name. -/
theorem exists_filler (accepted : Accepted) (text : List Char) :
    ∃ filler rest, text = filler ++ rest ∧ Filler accepted filler ∧ BehindFiller accepted rest := by
  induction hlength : text.length using Nat.strongRecOn generalizing text with
  | ind n ih =>
      rcases behindFiller_or_piece accepted text with hbehind | ⟨first, more, piece, rfl⟩
      · exact ⟨[], text, rfl, .nothing, hbehind⟩
      · have hpos := piece.length_pos
        obtain ⟨filler, rest, rfl, hfiller, hrest⟩ :=
          ih more.length (by rw [List.length_append] at hlength; omega) more rfl
        exact ⟨first ++ filler, rest, by rw [List.append_assoc], .piece piece hfiller, hrest⟩

section

variable (h : NamesOnly accepted) (ignored : Filler accepted filler) (before : List Char)

include h ignored

/-- A backslash at the end of the text stands for an empty name. -/
theorem resolveName_backslash :
    let last := Place.between (before ++ filler ++ ['\\']) []
    resolveName accepted (.begin (.between before (filler ++ ['\\']))) =
      .claim .variableName ⟨last, last, some last⟩ := by
  have hword : Kind.expansionWord ∉ accepted := h.not_mem (by decide)
  have hturn : fillerTurn accepted (.begin (.between (before ++ filler) ['\\'])) =
      .done (throw (.claim .variableName
        (.markEnd (.begin (.between (before ++ filler ++ ['\\']) []))))) := by
    simp [fillerTurn, Cursor.begin, Cursor.ignore, isNameFiller]
  rw [resolveName, skipFiller_between hword ignored, skipFiller, Turn.run_of_done hturn]
  rfl

/-- A backslash that does not continue the line is no name. -/
theorem resolveName_broken (unlined : c ≠ '\n') (unreturned : c = '\r' → rest.head? ≠ some '\n') :
    resolveName accepted (.begin (.between before (filler ++ '\\' :: c :: rest))) = .decline := by
  have hword : Kind.expansionWord ∉ accepted := h.not_mem (by decide)
  have hturn : fillerTurn accepted (.begin (.between (before ++ filler) ('\\' :: c :: rest))) =
      .done (throw .decline) := by
    by_cases hreturn : c = '\r'
    · subst hreturn
      have hline : (Place.between (before ++ (filler ++ ['\\', '\r'])) rest).lookahead ≠ '\n' :=
        mt (Place.lookahead_eq_iff (by decide)).mp (unreturned rfl)
      simp [fillerTurn, Cursor.begin, Cursor.ignore, isNameFiller, hword, hline]
    · simp [fillerTurn, Cursor.begin, Cursor.ignore, isNameFiller, hword, hreturn, unlined]
  rw [resolveName, skipFiller_between hword ignored, skipFiller, Turn.run_of_done hturn]
  rfl

end

/-! ## Letters -/

/-- No letter is a digit. -/
theorem isDigit_of_isLetter (letter : isLetter c = true) : c.isDigit = false := by
  obtain ⟨run, hrun, hfirst, -⟩ := Unicode.Ranges.exists_of_contains letter
  have htable : ∀ run ∈ Unicode.alphabetic, 0x41 ≤ run.1 := by decide +kernel
  have hcode : 0x41 ≤ c.toNat := Nat.le_trans (htable run hrun) hfirst
  simp only [Char.isDigit, Bool.and_eq_false_iff, decide_eq_false_iff_not, UInt32.not_le,
    UInt32.lt_iff_toNat_lt]
  exact .inr (Nat.lt_of_lt_of_le (by decide) hcode)

/-- No letter names a parameter by itself. -/
theorem isSpecialParameter_of_isLetter (letter : isLetter c = true) :
    isSpecialParameter c = false := by
  have hne {x : Char} (hx : isLetter x = false) : c ≠ x := ne_of_test hx letter
  simp (disch := decide) [isSpecialParameter, hne]

/-! ## The resolver -/

/-- The parts of a text that the resolver for names looks at: what is ignored, the text of a
variable, and the rest in front of which that ends. -/
inductive VariableText (accepted : Accepted) : List Char → List Char → List Char → Prop
  /-- A marked name. -/
  | name {filler name rest : List Char} (ignored : Filler accepted filler)
      (ordinary : ∀ c ∈ name.head?, isSpecialParameter c = false)
      (marked : NamesVariable accepted name rest) : VariableText accepted filler name rest
  /-- A marked name, and in front of it what names a parameter by itself. -/
  | behindParameter {filler : List Char} {c : Char} {name rest : List Char}
      (ignored : Filler accepted filler) (special : isSpecialParameter c = true)
      (marked : NamesVariable accepted name rest) : VariableText accepted filler (c :: name) rest
  /-- An empty name, for which a backslash stands at the end of the text. -/
  | missing {filler : List Char} (ignored : Filler accepted filler) :
      VariableText accepted (filler ++ ['\\']) [] []

/-- What is claimed as a variable is no arrow. -/
theorem readName_of_readArrowOrName {d e : Cursor}
    (claims : readArrowOrName accepted d = .claim .variableName e) :
    readName accepted d = .claim .variableName e := by
  rw [readArrowOrName] at claims
  split at claims
  · rw [readArrow] at claims
    dsimp only at claims
    split at claims
    · cases claims
    split at claims
    · simp at claims
    split at claims <;> cases claims
  · exact claims

/-- Every text of a variable is claimed. -/
theorem VariableText.resolveName_claims (parts : VariableText accepted filler text rest)
    (h : NamesOnly accepted) (wanted : .variableName ∈ accepted) (before : List Char) :
    ∃ d, resolveName accepted (.begin (.between before (filler ++ (text ++ rest)))) =
        .claim .variableName d ∧
      d.start = .between (before ++ filler) (text ++ rest) ∧
      d.stop = .between (before ++ filler ++ text) rest := by
  cases parts with
  | name ignored ordinary marked =>
      obtain ⟨d, hclaims, hstart, hstop⟩ := marked.readName_claims wanted (before ++ filler)
        (.between (before ++ filler) (text ++ rest)) none
      obtain ⟨first, more, rfl⟩ := List.exists_cons_of_ne_nil marked.nonempty
      have hfirst : isNameCharacter first = true := marked.belongs first (by simp)
      refine ⟨d, ?_, hstart, hstop⟩
      rw [List.cons_append, h.resolveName_word ignored hfirst (ordinary first rfl)]
      exact hclaims
  | @behindParameter _ c name rest ignored special marked =>
      let first := Place.between (before ++ filler) (c :: (name ++ rest))
      obtain ⟨d, hclaims, hstart, hstop⟩ := marked.readName_claims wanted
        (before ++ filler ++ [c]) first (some first)
      obtain ⟨x, more, rfl⟩ := List.exists_cons_of_ne_nil marked.nonempty
      have hx : isNameCharacter x = true := marked.belongs x (by simp)
      refine ⟨d, ?_, hstart, by simpa using hstop⟩
      rw [List.cons_append, List.cons_append, h.resolveName_parameter_word ignored special hx]
      exact hclaims
  | @missing filler ignored =>
      let last := Place.between (before ++ (filler ++ ['\\'])) []
      refine ⟨⟨last, last, some last⟩, ?_, rfl, by simp [last, Cursor.stop]⟩
      simpa [last] using resolveName_backslash h ignored before

/-- What is claimed as a variable is the text of one. -/
theorem exists_variableText (h : NamesOnly accepted) {before ahead : List Char} {d : Cursor}
    (claims : resolveName accepted (.begin (.between before ahead)) = .claim .variableName d) :
    ∃ filler text rest, ahead = filler ++ (text ++ rest) ∧
      VariableText accepted filler text rest := by
  obtain ⟨filler, ahead, rfl, ignored, behind⟩ := exists_filler accepted ahead
  cases behind with
  | backslash => exact ⟨filler ++ ['\\'], [], [], by simp, .missing ignored⟩
  | broken unlined unreturned =>
      rw [resolveName_broken h ignored before unlined unreturned] at claims
      cases claims
  | word stops =>
      rw [h.resolveName_between ignored stops before] at claims
      dsimp only at claims
      split at claims
      · next hspecial =>
        split at claims
        · cases claims
        cases ahead with
        | nil =>
            rw [Place.lookahead_between_nil] at hspecial
            exact absurd hspecial (by decide)
        | cons c ahead =>
            rw [Place.next_between_cons] at claims
            obtain ⟨name, rest, rfl, marked⟩ :=
              exists_name_of_readName (readName_of_readArrowOrName claims)
            exact ⟨filler, c :: name, rest, rfl, .behindParameter ignored hspecial marked⟩
      · next hspecial =>
        obtain ⟨name, rest, rfl, marked⟩ :=
          exists_name_of_readName (readName_of_readArrowOrName claims)
        refine ⟨filler, name, rest, rfl, .name ignored ?_ marked⟩
        obtain ⟨first, more, rfl⟩ := List.exists_cons_of_ne_nil marked.nonempty
        rintro _ ⟨⟩
        simpa using hspecial

/-! ## Calls -/

/-- A call returns a variable just in case its text comes next behind what is ignored, and then
it ends behind that text and keeps the state. -/
theorem sees_variable_iff (h : NamesOnly accepted) {s later : State} {before ahead : List Char}
    {q r : Place} :
    Sees [.call accepted] ⟨s, .between before ahead⟩ [(some (.variableName, text), q)] ⟨later, r⟩ ↔
      .variableName ∈ accepted ∧ later = s ∧ r = q ∧
        ∃ filler rest, ahead = filler ++ (text ++ rest) ∧
          q = .between (before ++ filler ++ text) rest ∧
          VariableText accepted filler text rest := by
  have hsees {filler text rest : List Char} (wanted : .variableName ∈ accepted)
      (parts : VariableText accepted filler text rest) :
      let stop := Place.between (before ++ filler ++ text) rest
      Sees [.call accepted] ⟨s, .between before (filler ++ (text ++ rest))⟩
        [(some (.variableName, text), stop)] ⟨s, stop⟩ := by
    obtain ⟨d, hclaims, hstart, hstop⟩ := parts.resolveName_claims h wanted before
    exact h.sees_claim (by decide) wanted hclaims hstop ⟨_, _, hstart, rfl⟩ s
  constructor
  · intro sees
    obtain ⟨d, hscan⟩ := sees.exists_claim
    have wanted : .variableName ∈ accepted := by
      obtain ⟨-, -, -, -, -, hkind⟩ := exists_run_of_walk (congrArg Verdict.claim hscan)
      exact hkind
    have hcounted := congrArg Verdict.claim
      ((h.scan_eq ⟨_, wanted, by decide⟩ s (.begin (.between before ahead))).symm.trans hscan)
    obtain ⟨hclaims, -⟩ := Ruling.of_counted hcounted
    obtain ⟨filler, found, rest, rfl, parts⟩ := exists_variableText h hclaims
    -- A call shows one thing only, and what it shows of this text is known.
    have hsame := (hsees wanted parts).symm.trans sees
    simp only [Prod.mk.injEq, List.cons.injEq, Option.some.injEq, Progress.mk.injEq, true_and,
      and_true] at hsame
    obtain ⟨⟨rfl, hq⟩, hlater, hr⟩ := hsame
    exact ⟨wanted, hlater.symm, hr.symm.trans hq, filler, rest, rfl, hq.symm, parts⟩
  · rintro ⟨wanted, rfl, rfl, filler, rest, rfl, rfl, parts⟩
    exact hsees wanted parts

/-! ## Which names are variables -/

/-- A name that begins with a letter is returned in full, with nothing of what is ignored in front
of it, if it is marked, and otherwise the call declines. The state is kept. -/
theorem variable_classified (h : NamesOnly accepted) (wanted : .variableName ∈ accepted)
    (ignored : Filler accepted filler) (letter : isLetter c = true)
    (belongs : ∀ x ∈ name, isNameCharacter x = true)
    (ends : ∀ x ∈ rest.head?, isNameCharacter x = false) (s : State) (before : List Char) :
    let p := Place.between before (filler ++ (c :: name ++ rest))
    let stop := Place.between (before ++ filler ++ c :: name) rest
    (MarksVariable accepted rest →
      Sees [.call accepted] ⟨s, p⟩ [(some (.variableName, c :: name), stop)] ⟨s, stop⟩) ∧
    (¬ MarksVariable accepted rest → Sees [.call accepted] ⟨s, p⟩ [(none, p)] ⟨s, p⟩) := by
  have hc : isNameCharacter c = true := by simp [isNameCharacter, letter]
  have hspecial : isSpecialParameter c = false := isSpecialParameter_of_isLetter letter
  have hnumber : (c :: name).all Char.isDigit = false := by
    simp [isDigit_of_isLetter letter]
  have hall : ∀ x ∈ c :: name, isNameCharacter x = true := List.forall_mem_cons.mpr ⟨hc, belongs⟩
  refine ⟨fun marks => ?_, fun unmarked => ?_⟩
  · have hordinary : ∀ x ∈ (c :: name).head?, isSpecialParameter x = false := by
      rintro _ ⟨⟩
      exact hspecial
    have hmarked : NamesVariable accepted (c :: name) rest :=
      ⟨List.cons_ne_nil c name, hall, ends, marks, fun _ => hnumber⟩
    exact (sees_variable_iff h).mpr
      ⟨wanted, rfl, rfl, filler, rest, rfl, rfl, .name ignored hordinary hmarked⟩
  · refine h.sees_decline ⟨_, wanted, by decide⟩ ?_ s
    rw [List.cons_append, h.resolveName_word ignored hc hspecial, ← List.cons_append,
      readName_between (List.cons_ne_nil c name) hall ends]
    dsimp only
    rw [hnumber, if_neg (by simp), if_pos wanted]
    exact claimName_of_unmarked unmarked _ _ _ _

/-- The host accepts variables inside of an expansion. -/
def bracedVariables : Accepted := .ofList [.variableName, .closingBrace]

theorem namesOnly_bracedVariables : NamesOnly bracedVariables := by
  simp [NamesOnly, bracedVariables]

/-- A name in the next line, which ends in front of a plus sign. -/
theorem variable_classified_plus :
    let ignored := ['\t', '\\', '\r', '\n', '\n']
    NamesOnly bracedVariables ∧ .variableName ∈ bracedVariables ∧ Filler bracedVariables ignored ∧
    isLetter 'a' = true ∧ (∀ x ∈ ['1', '_'], isNameCharacter x = true) ∧
    (∀ x ∈ ['+', 'b'].head?, isNameCharacter x = false) ∧
    MarksVariable bracedVariables ['+', 'b'] ∧
    Sees [.call bracedVariables]
      ⟨State.initial, .between [] (ignored ++ (['a', '1', '_'] ++ ['+', 'b']))⟩
      [(some (.variableName, ['a', '1', '_']), .between (ignored ++ ['a', '1', '_']) ['+', 'b'])]
      ⟨State.initial, .between (ignored ++ ['a', '1', '_']) ['+', 'b']⟩ := by
  intro ignored
  have hwanted : Kind.variableName ∈ bracedVariables := by decide
  have hignored : Filler bracedVariables ignored :=
    .piece (.blank (by simp)) (.piece .returnContinuation (.piece (.lineFeed (by decide)) .nothing))
  have hletter : isLetter 'a' = true := by decide
  have hbelongs : ∀ x ∈ ['1', '_'], isNameCharacter x = true := List.all_eq_true.mp rfl
  have hends : ∀ x ∈ ['+', 'b'].head?, isNameCharacter x = false := by
    rintro _ ⟨⟩
    decide
  have hmarks : MarksVariable bracedVariables ['+', 'b'] := .plus (by decide)
  have hclassified := variable_classified namesOnly_bracedVariables hwanted hignored hletter
    hbelongs hends State.initial []
  exact ⟨namesOnly_bracedVariables, hwanted, hignored, hletter, hbelongs, hends, hmarks,
    hclassified.1 hmarks⟩

/-! ## How variables are spelled -/

/-- The characters that name special parameters, and are not characters of names. -/
def parameterOperators : List Char := ['*', '@', '?', '-']

theorem isNameCharacter_of_isSpecialParameter (special : isSpecialParameter c = true) :
    isNameCharacter c = true ↔ c ∉ parameterOperators := by
  simp only [isSpecialParameter, List.mem_cons, List.not_mem_nil, or_false,
    decide_eq_true_eq] at special
  rcases special with rfl | rfl | rfl | rfl | rfl | rfl <;> decide

theorem not_mem_parameterOperators (h : isNameCharacter c = true) : c ∉ parameterOperators := by
  have hne {x : Char} (hx : isNameCharacter x = false) : c ≠ x := ne_of_test hx h
  simp (disch := decide) [parameterOperators, hne]

/-- An operator in front of a marked name is returned as a part of it. -/
theorem sees_operator (h : NamesOnly accepted) (wanted : .variableName ∈ accepted)
    (ignored : Filler accepted filler) (operator : c ∈ parameterOperators)
    (marked : NamesVariable accepted name rest) (s : State) (before : List Char) :
    let stop := Place.between (before ++ filler ++ c :: name) rest
    Sees [.call accepted] ⟨s, .between before (filler ++ (c :: name ++ rest))⟩
      [(some (.variableName, c :: name), stop)] ⟨s, stop⟩ := by
  have special : isSpecialParameter c = true := by
    simp only [parameterOperators, List.mem_cons, List.not_mem_nil, or_false] at operator
    rcases operator with rfl | rfl | rfl | rfl <;> rfl
  exact (sees_variable_iff h).mpr
    ⟨wanted, rfl, rfl, filler, rest, rfl, rfl, .behindParameter ignored special marked⟩

/-- Behind its first character a variable has name characters only, and it has no others at all
just in case it does not begin with an operator. -/
theorem variable_spelled (h : NamesOnly accepted) {s later : State} {p q r : Place}
    (sees : Sees [.call accepted] ⟨s, p⟩ [(some (.variableName, text), q)] ⟨later, r⟩) :
    (∀ c ∈ text.tail, isNameCharacter c = true) ∧
    ((∀ c ∈ text, isNameCharacter c = true) ↔ ∀ c ∈ text.head?, c ∉ parameterOperators) := by
  obtain ⟨before, hp⟩ := p.exists_between
  rw [hp] at sees
  obtain ⟨-, -, -, filler, rest, -, -, parts⟩ := (sees_variable_iff h).mp sees
  cases parts with
  | name ignored ordinary marked =>
      refine ⟨fun c hc => marked.belongs c (List.mem_of_mem_tail hc), fun _ c hc => ?_,
        fun _ => marked.belongs⟩
      exact not_mem_parameterOperators (marked.belongs c (List.mem_of_head? hc))
  | @behindParameter _ c name rest ignored special marked =>
      refine ⟨marked.belongs, ?_⟩
      simpa [isNameCharacter_of_isSpecialParameter special] using fun _ => marked.belongs
  | missing => simp

/-- The host accepts variables only. -/
def variableNames : Accepted := .ofList [.variableName]

theorem namesOnly_variableNames : NamesOnly variableNames := by
  simp [NamesOnly, variableNames]

/-- A question mark in front of a name, which is marked by the beginning of an index. -/
theorem variable_spelled_question :
    NamesOnly variableNames ∧
    Sees [.call variableNames] ⟨State.initial, .between [' '] ['?', 'a', '[']⟩
      [(some (.variableName, ['?', 'a']), .between [' ', '?', 'a'] ['['])]
      ⟨State.initial, .between [' ', '?', 'a'] ['[']⟩ ∧
    (∀ c ∈ ['a'], isNameCharacter c = true) ∧
    ¬ ∀ c ∈ ['?', 'a'], isNameCharacter c = true := by
  have hsees : Sees [.call variableNames] ⟨State.initial, .between [' '] ['?', 'a', '[']⟩
      [(some (.variableName, ['?', 'a']), .between [' ', '?', 'a'] ['['])]
      ⟨State.initial, .between [' ', '?', 'a'] ['[']⟩ := rfl
  obtain ⟨htail, hall⟩ := variable_spelled namesOnly_variableNames hsees
  refine ⟨namesOnly_variableNames, hsees, htail, fun hnames => ?_⟩
  exact hall.mp hnames '?' rfl (by decide)

/-- An asterisk in front of an assigned name becomes part of the name. -/
theorem operator_joins_name :
    Sees [.call variableNames]
      ⟨State.initial, .between [] ['*', 'f', 'o', 'o', '=', 'b', 'a', 'r']⟩
      [(some (.variableName, ['*', 'f', 'o', 'o']),
        .between ['*', 'f', 'o', 'o'] ['=', 'b', 'a', 'r'])]
      ⟨State.initial, .between ['*', 'f', 'o', 'o'] ['=', 'b', 'a', 'r']⟩ ∧
    isNameCharacter '*' = false :=
  ⟨rfl, by decide⟩

end ContextLexer.Shell
