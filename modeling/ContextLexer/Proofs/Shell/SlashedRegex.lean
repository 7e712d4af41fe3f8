/-
# Regexes that a slash ends

A regex that a slash ends is read unit by unit, up to the first slash that no unit has taken
along. A backslash takes the next character along, but not a slash: the backslash of an
escaped slash is a unit of its own, and the regex ends behind it. So a regex is returned whole
just in case it has no escaped slash, and a single character for a token to be made of.
-/

import ContextLexer.Proofs.Shell.RegexCalls

namespace ContextLexer.Shell

open Scanner (Sees)

/-- The host accepts a regex that a slash ends, and nothing else. -/
def slashedRegexes : Accepted := .ofList [.regexNoSlash]

theorem acceptsRegexes_slashed : AcceptsRegexes slashedRegexes where
  nonempty := ⟨.regexNoSlash, by simp [slashedRegexes]⟩
  only := by simp [slashedRegexes]

/-- Whether a unit belongs into a regex that a slash ends. -/
def PatternUnit.Slashless : PatternUnit → Prop
  | single c => c ≠ '/' ∧ c ≠ '\\' ∧ c ≠ '\x00'
  | escaped c => c ≠ '[' ∧ c ≠ '\x00'

/-! ## Reading -/

variable {units : List PatternUnit} {groups : Groups} {start : Place} {mark : Option Place}
  {advanced significant : Bool}

/-- The rest of a regex is read from any point of it. -/
def runSlashed (now : Regex) : Claim Kind :=
  Turn.run (regexTurn .slashed .regexNoSlash) (fun now => now.cursor.remaining)
    (regexTurn_shrinks _ _) now

/-- A turn reads a unit, unless that is an escaped slash. -/
theorem regexTurn_unit {unit : PatternUnit} (fits : unit.Slashless) (bare : unit ≠ .escaped '/')
    (nests : groups.Nests (singles (unit :: units))) (before rest : List Char) (start : Place)
    (mark : Option Place) (advanced significant : Bool) :
    ∃ mark' later, later.Nests (singles units) ∧
      regexTurn .slashed .regexNoSlash ⟨⟨.between before (unit.text ++ rest), start, mark⟩, groups,
          advanced, significant⟩ =
        .again ⟨⟨.between (before ++ unit.text) rest, start, mark'⟩, later,
          advanced || unit.single?.isSome, significant⟩ := by
  cases unit with
  | single c =>
      obtain ⟨later, hcount, hnests⟩ := Groups.nests_cons_iff.mp nests
      obtain ⟨hslash, hback, hnul⟩ := fits
      refine ⟨if isSpace c then mark else some (.between (before ++ [c]) rest), later, hnests, ?_⟩
      cases hspace : isSpace c <;>
        simp [regexTurn, slashedTurn, PatternUnit.text, PatternUnit.single?, hcount, hslash, hback,
          hnul, hspace]
  | escaped c =>
      obtain ⟨hbracket, hnul⟩ := fits
      have hslash : c ≠ '/' := fun hslash => bare (by rw [hslash])
      refine ⟨some (.between (before ++ ['\\', c]) rest), groups, nests, ?_⟩
      simp [regexTurn, slashedTurn, PatternUnit.text, PatternUnit.single?, Groups.count, hbracket,
        hslash]

/-- Units without an escaped slash are read one after the other. -/
theorem runSlashed_units (fits : ∀ unit ∈ units, unit.Slashless)
    (bare : .escaped '/' ∉ units) (nests : groups.Nests (singles units))
    (before rest : List Char) (start : Place) (mark : Option Place)
    (advanced significant : Bool) :
    ∃ mark' later, runSlashed
        ⟨⟨.between before (patternText units ++ rest), start, mark⟩, groups, advanced,
          significant⟩ =
      runSlashed
        ⟨⟨.between (before ++ patternText units) rest, start, mark'⟩, later,
          advanced || !(singles units).isEmpty, significant⟩ := by
  induction units generalizing before mark groups advanced with
  | nil => exact ⟨mark, groups, by simp⟩
  | cons unit units ih =>
      obtain ⟨hunit, hunits⟩ := List.forall_mem_cons.mp fits
      obtain ⟨hfirst, hbare⟩ := not_or.mp (mt List.mem_cons.mpr bare)
      obtain ⟨next, counted, hnests, hturn⟩ := regexTurn_unit hunit (Ne.symm hfirst) nests before
        (patternText units ++ rest) start mark advanced significant
      obtain ⟨mark', later, hrun⟩ := ih hunits hbare hnests (before ++ unit.text) next
        (advanced || unit.single?.isSome)
      refine ⟨mark', later, ?_⟩
      rw [patternText_cons, List.append_assoc]
      refine (Turn.run_of_again hturn).trans (hrun.trans ?_)
      cases unit <;> simp [PatternUnit.text, PatternUnit.single?]

variable {ending : List Char}

/-- A slash that no unit takes along ends the regex, also behind a backslash. -/
theorem runSlashed_slash (hending : ending = [] ∨ ending = ['\\']) (before after : List Char) :
    runSlashed
        ⟨⟨.between before (ending ++ '/' :: after), start, mark⟩, groups, advanced, significant⟩ =
      if advanced then
        some (.regexNoSlash, ⟨.between (before ++ ending) ('/' :: after), start,
          some (.between (before ++ ending) ('/' :: after))⟩)
      else none := by
  have hslash (before : List Char) : runSlashed
        ⟨⟨.between before ('/' :: after), start, mark⟩, groups, advanced, significant⟩ =
      if advanced then
        some (.regexNoSlash,
          ⟨.between before ('/' :: after), start, some (.between before ('/' :: after))⟩)
      else none :=
    Turn.run_of_done (by simp [regexTurn, slashedTurn, Groups.count])
  rcases hending with rfl | rfl
  · rw [List.append_nil, List.nil_append, hslash]
  · exact (Turn.run_of_again (by simp [regexTurn, slashedTurn, Groups.count])).trans
      (hslash (before ++ ['\\']))

/-! ## The call -/

/-- In front of no quote and no dollar sign the resolver reads. -/
theorem resolveRegex_slashed {p : Place} (hquote : isQuote p.lookahead = false)
    (hdollar : p.lookahead ≠ '$') :
    resolveRegex slashedRegexes (.begin p) =
      .ofClaim (runSlashed ⟨⟨p, p, some p⟩, .ofParens 0, false, false⟩) := by
  have hplace : regexPlace slashedRegexes p = p := if_neg (by simp [slashedRegexes])
  rw [resolveRegex_begin, hplace, if_neg (by simp [hquote]), if_neg (by simp [hdollar])]
  rfl

section

variable (fits : ∀ unit ∈ units, unit.Slashless) (bare : .escaped '/' ∉ units)
  (hending : ending = [] ∨ ending = ['\\'])
  (begins : ∀ c ∈ (patternText units ++ ending).head?, isQuote c = false ∧ c ≠ '$')

include fits bare hending begins

/-- The resolver claims units without an escaped slash, and the backslash of an escaped slash
behind them, if there is a single character among them. -/
theorem resolveRegex_units (nests : (Groups.ofParens 0).Nests (singles units))
    (before after : List Char) :
    resolveRegex slashedRegexes
        (.begin (.between before (patternText units ++ ending ++ '/' :: after))) =
      if singles units = [] then .decline
      else
        .claim .regexNoSlash
          ⟨.between (before ++ (patternText units ++ ending)) ('/' :: after),
            .between before (patternText units ++ ending ++ '/' :: after),
            some (.between (before ++ (patternText units ++ ending)) ('/' :: after))⟩ := by
  have hfirst (c : Char)
      (hc : (Place.between before (patternText units ++ ending ++ '/' :: after)).lookahead = c) :
      isQuote c = false ∧ c ≠ '$' := by
    subst hc
    cases hwritten : patternText units ++ ending with
    | nil => simp [isQuote]
    | cons x text => exact begins x (by simp [hwritten])
  let p : Place := .between before (patternText units ++ ending ++ '/' :: after)
  obtain ⟨mark', later, hrun⟩ := runSlashed_units fits bare nests before (ending ++ '/' :: after)
    p (some p) false false
  rw [← List.append_assoc] at hrun
  rw [resolveRegex_slashed (hfirst _ rfl).1 (hfirst _ rfl).2, hrun, runSlashed_slash hending,
    List.append_assoc before]
  cases singles units <;> simp [Ruling.ofClaim, p]

/-- A call returns units with a single character among them, whatever the state. -/
theorem sees_units (nests : (Groups.ofParens 0).Nests (singles units))
    (single : singles units ≠ []) (s : State) (before after : List Char) :
    Sees [.call slashedRegexes]
      ⟨s, .between before (patternText units ++ ending ++ '/' :: after)⟩
      [(some (.regexNoSlash, patternText units ++ ending),
        .between (before ++ (patternText units ++ ending)) ('/' :: after))]
      ⟨s, .between (before ++ (patternText units ++ ending)) ('/' :: after)⟩ := by
  have hrules := resolveRegex_units fits bare hending begins nests before after
  rw [if_neg single] at hrules
  have hcounted := congrArg (Ruling.counted slashedRegexes) hrules
  rw [Ruling.counted, if_pos (by decide)] at hcounted
  exact acceptsRegexes_slashed.sees hcounted rfl rfl s

/-- A call declines in front of units that are all escaped. -/
theorem sees_no_units (single : singles units = []) (s : State) (before after : List Char) :
    Sees [.call slashedRegexes]
      ⟨s, .between before (patternText units ++ ending ++ '/' :: after)⟩
      [(none, .between before (patternText units ++ ending ++ '/' :: after))]
      ⟨s, .between before (patternText units ++ ending ++ '/' :: after)⟩ := by
  have hnests : (Groups.ofParens 0).Nests (singles units) := by
    rw [single]
    exact Groups.nests_nil _
  have hrules := resolveRegex_units fits bare hending begins hnests before after
  rw [if_pos single] at hrules
  exact acceptsRegexes_slashed.sees_nothing (by rw [hrules, Ruling.counted]) s

end

/-- A regex in front of a slash is returned whole just in case it has a single character and
no escaped slash. What comes behind the slash does not matter, and the state stays. -/
theorem slashed_regex_whole_iff (fits : ∀ unit ∈ units, unit.Slashless)
    (nests : (Groups.ofParens 0).Nests (singles units))
    (begins : ∀ c ∈ (patternText units).head?, isQuote c = false ∧ c ≠ '$')
    (s : State) (before after : List Char) :
    Sees [.call slashedRegexes] ⟨s, .between before (patternText units ++ '/' :: after)⟩
        [(some (.regexNoSlash, patternText units),
          .between (before ++ patternText units) ('/' :: after))]
        ⟨s, .between (before ++ patternText units) ('/' :: after)⟩ ↔
      singles units ≠ [] ∧ .escaped '/' ∉ units := by
  constructor
  · intro hwhole
    have hshown {sight : Scanner.Sight Kind} {now : Progress State}
        (hsees : Sees [.call slashedRegexes]
          ⟨s, .between before (patternText units ++ '/' :: after)⟩ [sight] now) :
        sight.1.map Prod.snd = some (patternText units) := by
      simpa using congrArg (fun seen => seen.1.map fun sight => sight.1.map Prod.snd)
        (hsees.symm.trans hwhole)
    have hbare : .escaped '/' ∉ units := by
      intro hescaped
      -- What is read are the units in front of the first escaped slash, and its backslash.
      obtain ⟨front, back, rfl, hfront⟩ := List.eq_append_cons_of_mem hescaped
      have hfits : ∀ unit ∈ front, unit.Slashless := fun unit hunit => fits unit (by simp [hunit])
      have hnests : (Groups.ofParens 0).Nests (singles front) := nests.beginning (by simp)
      have hbegins : ∀ c ∈ (patternText front ++ ['\\']).head?, isQuote c = false ∧ c ≠ '$' := by
        cases hwritten : patternText front with
        | nil => simp [isQuote]
        | cons x text => simpa [hwritten] using begins
      have htext : patternText (front ++ .escaped '/' :: back) ++ '/' :: after =
          patternText front ++ ['\\'] ++ '/' :: (patternText back ++ '/' :: after) := by
        simp
      rw [htext] at hshown
      by_cases hsingle : singles front = []
      · cases hshown (sees_no_units hfits hfront (.inr rfl) hbegins hsingle s before _)
      · have hcut := hshown (sees_units hfits hfront (.inr rfl) hbegins hnests hsingle s before _)
        simp at hcut
    refine ⟨fun hsingle => ?_, hbare⟩
    have hnone := sees_no_units fits hbare (.inl rfl) (by simpa using begins) hsingle s before after
    cases hshown (by simpa using hnone)
  · rintro ⟨hsingle, hbare⟩
    have hsees := sees_units fits hbare (.inl rfl) (by simpa using begins) nests hsingle s before
      after
    simpa using hsees

/-- Groups, escaped closers and whitespace in the regex, and a closer and a slash behind it. -/
theorem slashed_regex_whole_groups :
    let units : List PatternUnit :=
      [.single '(', .single ' ', .escaped ')', .single ')', .escaped '.', .single '[', .single ']']
    (∀ unit ∈ units, unit.Slashless) ∧ (Groups.ofParens 0).Nests (singles units) ∧
    (∀ c ∈ (patternText units).head?, isQuote c = false ∧ c ≠ '$') ∧
    Sees [.call slashedRegexes]
      ⟨State.initial, .between [] (patternText units ++ '/' :: [')', '/'])⟩
      [(some (.regexNoSlash, patternText units),
        .between ([] ++ patternText units) ('/' :: [')', '/']))]
      ⟨State.initial, .between ([] ++ patternText units) ('/' :: [')', '/'])⟩ := by
  intro units
  have hfits : ∀ unit ∈ units, unit.Slashless := by
    simp [units, PatternUnit.Slashless]
  have hnests : (Groups.ofParens 0).Nests (singles units) := by decide
  have hbegins : ∀ c ∈ (patternText units).head?, isQuote c = false ∧ c ≠ '$' := by
    rintro _ ⟨⟩
    decide
  have hiff := slashed_regex_whole_iff hfits hnests hbegins State.initial [] [')', '/']
  exact ⟨hfits, hnests, hbegins, hiff.mpr ⟨by decide, by decide⟩⟩

/-- An escaped slash ends a regex: the call returns what is in front of the slash, with the
backslash. -/
theorem escaped_slash_ends_regex :
    let units : List PatternUnit := [.single 'a', .escaped '/', .single 'b']
    (∀ unit ∈ units, unit.Slashless) ∧ (Groups.ofParens 0).Nests (singles units) ∧
    (∀ c ∈ (patternText units).head?, isQuote c = false ∧ c ≠ '$') ∧ singles units ≠ [] ∧
    Sees [.call slashedRegexes]
      ⟨State.initial, .between [] (patternText units ++ ['/'])⟩
      [(some (.regexNoSlash, ['a', '\\']), .between ['a', '\\'] ['/', 'b', '/'])]
      ⟨State.initial, .between ['a', '\\'] ['/', 'b', '/']⟩ ∧
    ['a', '\\'] ≠ patternText units := by
  intro units
  refine ⟨by simp [units, PatternUnit.Slashless], by decide, ?_, by decide, rfl, by decide⟩
  rintro _ ⟨⟩
  decide

end ContextLexer.Shell
