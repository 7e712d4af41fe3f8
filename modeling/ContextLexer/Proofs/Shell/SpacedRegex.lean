/-
# Regexes that whitespace ends

A regex that whitespace ends is read unit by unit, and a backslash takes any character along.
Whitespace is part of it only inside parentheses. A dollar sign may stand anywhere, but if a
parenthesis follows it begins an expansion, and if whitespace follows it is an anchor and ends
the regex. So the units up to the whitespace are returned as one regex, unless they could as
well be a plain word.
-/

import ContextLexer.Proofs.Shell.RegexCalls
import Mathlib.Data.List.Chain
import Mathlib.Data.List.Induction

namespace ContextLexer.Shell

open Scanner (Sees)

/-- The host accepts a regex that whitespace ends, and nothing else. -/
def spacedRegexes : Accepted := .ofList [.regexNoSpace]

theorem acceptsRegexes_spaced : AcceptsRegexes spacedRegexes where
  nonempty := ⟨.regexNoSpace, by simp [spacedRegexes]⟩
  only := by simp [spacedRegexes]

/-! ## Units in a row -/

/-- A text that goes on a regex behind a dollar sign. -/
def ContinuesDollar (text : List Char) : Prop := ∀ c ∈ text.head?, c ≠ '(' ∧ isSpace c = false

instance (text : List Char) : Decidable (ContinuesDollar text) :=
  Option.decidableForallMem text.head?

/-- In front of such a text the next character neither begins an expansion nor ends the
regex; nor does the end of the text. -/
theorem ContinuesDollar.lookahead {text : List Char} (h : ContinuesDollar text)
    (before : List Char) :
    (Place.between before text).lookahead ≠ '(' ∧
      isSpace (Place.between before text).lookahead = false :=
  Place.lookahead_between (fun c => c ≠ '(' ∧ isSpace c = false) (by decide) h

/-- Units that are read as one regex, without anything in them that ends it. -/
structure Unbroken (units : List PatternUnit) : Prop where
  /-- A backslash begins an escaped unit, and NUL is the end of the text. -/
  fits : ∀ c, .single c ∈ units → c ≠ '\\' ∧ c ≠ '\x00'
  /-- Only groups that were opened are closed. -/
  nests : (Groups.ofParens 0).Nests (singles units)
  /-- Whitespace stands in parentheses. -/
  enclosed : ∀ front c, front ++ [.single c] <+: units → isSpace c = true →
    0 < (Groups.leftOpen (singles front)).parens
  /-- No dollar sign begins an expansion, or is an anchor. -/
  dollars : units.IsChain fun unit next => unit = .single '$' → ContinuesDollar next.text

/-- A unit with which units in a row can go on: nothing is closed that they do not leave open, and
whitespace stands in parentheses. -/
def FitsBehind (units : List PatternUnit) : PatternUnit → Prop
  | .single c => c ≠ '\\' ∧ c ≠ '\x00' ∧ ¬ (Groups.leftOpen (singles units)).Unopened c ∧
      (isSpace c = true → 0 < (Groups.leftOpen (singles units)).parens)
  | .escaped _ => True

instance (units : List PatternUnit) : (unit : PatternUnit) → Decidable (FitsBehind units unit)
  | .single _ => inferInstanceAs (Decidable (_ ∧ _ ∧ _ ∧ (_ → _)))
  | .escaped _ => .isTrue trivial

/-- A unit that a plain word cannot contain. -/
def PatternUnit.Significant : PatternUnit → Prop
  | single c => isAlphanumeric c = false ∧ c ∉ ['$', '-', '_']
  | escaped _ => True

instance : (unit : PatternUnit) → Decidable unit.Significant
  | .single _ => inferInstanceAs (Decidable (_ ∧ _))
  | .escaped _ => .isTrue trivial

/-- Units that are a regex: an anchor is at their end, or something a plain word cannot
contain is among them. -/
def MakesRegex (units : List PatternUnit) : Prop :=
  units.getLast? = some (.single '$') ∨ ∃ unit ∈ units, unit.Significant

instance (units : List PatternUnit) : Decidable (MakesRegex units) :=
  inferInstanceAs (Decidable (_ ∨ _))

theorem PatternUnit.significant_single_iff {c : Char} :
    (single c).Significant ↔ isPlain c = false := by
  simp [Significant, isPlain, and_assoc]

section

variable {units more : List PatternUnit} {unit : PatternUnit}

theorem unbroken_nil : Unbroken [] where
  fits := by simp
  nests := Groups.nests_nil _
  enclosed := by simp
  dollars := .nil

theorem Unbroken.beginning (h : Unbroken (units ++ more)) : Unbroken units where
  fits c hc := h.fits c (by simp [hc])
  nests := h.nests.beginning (by simp)
  enclosed front c hfront := h.enclosed front c (hfront.trans (List.prefix_append _ _))
  dollars := (List.isChain_append.mp h.dollars).1

/-- Whitespace at the beginning would not stand in parentheses. -/
theorem Unbroken.not_isSpace (h : Unbroken units) :
    ∀ c ∈ (patternText units).head?, isSpace c = false := by
  cases units with
  | nil => simp
  | cons unit units =>
      cases unit with
      | escaped x =>
          rintro c ⟨⟩
          decide
      | single x =>
          rintro c ⟨⟩
          refine Bool.eq_false_iff.mpr fun hspace => ?_
          exact Nat.lt_irrefl 0 (h.enclosed [] x ⟨units, rfl⟩ hspace)

/-- Units in a row go on with one more. -/
theorem Unbroken.concat (h : Unbroken units) (fits : FitsBehind units unit)
    (continues : units.getLast? = some (.single '$') → ContinuesDollar unit.text) :
    Unbroken (units ++ [unit]) where
  fits c hc := by
    rcases List.mem_append.mp hc with hc | hc
    · exact h.fits c hc
    · obtain rfl := List.mem_singleton.mp hc
      exact ⟨fits.1, fits.2.1⟩
  nests := by
    cases unit with
    | escaped c => simpa using h.nests
    | single c => simpa using Groups.nests_concat_iff.mpr ⟨h.nests, fits.2.2.1⟩
  enclosed front c hfront hspace := by
    rcases List.prefix_concat_iff.mp hfront with heq | hfront
    · obtain ⟨rfl, hlast⟩ := List.append_inj' heq rfl
      obtain rfl := List.singleton_inj.mp hlast
      exact fits.2.2.2 hspace
    · exact h.enclosed front c hfront hspace
  dollars := by
    refine List.isChain_append.mpr ⟨h.dollars, .singleton _, ?_⟩
    rintro first hfirst second ⟨⟩ rfl
    exact continues hfirst

/-- A unit goes on behind a dollar sign that is the last unit in front of it. -/
theorem Unbroken.continues (h : Unbroken (units ++ unit :: more))
    (dollar : units.getLast? = some (.single '$')) (rest : List Char) :
    ContinuesDollar (unit.text ++ rest) := by
  have htext : ContinuesDollar unit.text :=
    (List.isChain_append.mp h.dollars).2.2 _ dollar unit rfl rfl
  cases unit <;> exact htext

end

/-! ## Reading -/

variable {before rest : List Char} {units : List PatternUnit} {unit : PatternUnit} {c w : Char}
  {mark : Option Place}

/-- A regex that whitespace ends, behind the units that have been read. -/
def spacedBehind (before : List Char) (units : List PatternUnit) (rest : List Char)
    (mark : Option Place) : Regex where
  cursor := ⟨.between (before ++ patternText units) rest,
    .between before (patternText units ++ rest), mark⟩
  groups := .leftOpen (singles units)
  advanced := false
  significant := decide (∃ unit ∈ units, unit.Significant)

/-- A turn reads one more unit. In front of a dollar sign it decides that the token ends
there, for the time being. -/
theorem regexTurn_spaced_unit (unbroken : Unbroken (units ++ [unit]))
    (continues : unit = .single '$' → ContinuesDollar rest) :
    regexTurn .spaced .regexNoSpace (spacedBehind before units (unit.text ++ rest) mark) =
      .again (spacedBehind before (units ++ [unit]) rest
        (if unit = .single '$' then some (.between (before ++ patternText units) ('$' :: rest))
          else mark)) := by
  cases unit with
  | escaped c =>
      simp [regexTurn, spacedTurn, spacedBehind, PatternUnit.text, Groups.count,
        PatternUnit.Significant]
  | single c =>
      have hcount : (Groups.leftOpen (singles units)).count c =
          some (.leftOpen (singles units ++ [c])) :=
        Groups.count_leftOpen (by simpa using unbroken.nests)
      obtain ⟨hback, hnul⟩ := unbroken.fits c (by simp)
      by_cases hdollar : c = '$'
      · subst hdollar
        have hnext := (continues rfl).lookahead (before ++ (patternText units ++ ['$']))
        simp [regexTurn, spacedTurn, spacedBehind, PatternUnit.text, hcount, hnext,
          PatternUnit.significant_single_iff, isPlain]
      · have hinside : isSpace c = true → (Groups.leftOpen (singles units ++ [c])).parens ≠ 0 := by
          intro hspace
          rw [Groups.count_of_isSpace hspace, Option.some.injEq] at hcount
          rw [← hcount]
          exact (unbroken.enclosed units c List.prefix_rfl hspace).ne'
        simpa [regexTurn, spacedTurn, spacedBehind, PatternUnit.text, hcount, hback, hnul, hdollar,
          PatternUnit.significant_single_iff] using hinside

/-- Units in a row are read one after the other. Where the token would end by then depends on
the dollar signs among them, but whitespace behind them decides it anew. -/
theorem runRegex_unbroken (unbroken : Unbroken units)
    (continues : units.getLast? = some (.single '$') → ContinuesDollar rest)
    (before : List Char) (first : Option Place) :
    ∃ mark, runRegex .spaced .regexNoSpace
        (spacedBehind before [] (patternText units ++ rest) first) =
      runRegex .spaced .regexNoSpace (spacedBehind before units rest mark) := by
  induction units using List.reverseRecOn generalizing rest with
  | nil => exact ⟨first, rfl⟩
  | append_singleton units unit ih =>
      have hcontinues : unit = .single '$' → ContinuesDollar rest := fun hunit =>
        continues (by simp [hunit])
      obtain ⟨mark, hrun⟩ := @ih (unit.text ++ rest) unbroken.beginning
        fun hdollar => unbroken.continues hdollar rest
      have htext : patternText (units ++ [unit]) ++ rest =
          patternText units ++ (unit.text ++ rest) := by
        simp [patternText_cons]
      rw [htext]
      exact ⟨_, hrun.trans (Turn.run_of_again (regexTurn_spaced_unit unbroken hcontinues))⟩

/-- Whitespace outside parentheses ends the regex, and there is one if something significant
has been read. -/
theorem regexTurn_spaced_space (hspace : isSpace w = true)
    (closed : (Groups.leftOpen (singles units)).parens = 0) (before rest : List Char)
    (mark : Option Place) :
    regexTurn .spaced .regexNoSpace (spacedBehind before units (w :: rest) mark) =
      .done (if ∃ unit ∈ units, unit.Significant then
        some (.regexNoSpace, (spacedBehind before units (w :: rest) mark).cursor.markEnd)
      else none) := by
  have hne {x : Char} (hx : isSpace x = false) : w ≠ x := ne_of_test hx hspace
  have hnul := hne (x := '\x00') (by decide)
  have hback := hne (x := '\\') (by decide)
  have hdollar := hne (x := '$') (by decide)
  simp [regexTurn, spacedTurn, spacedBehind, Groups.count_of_isSpace hspace, hspace, hnul, hback,
    hdollar, closed]

/-- A dollar sign in front of whitespace is an anchor, and ends the regex. -/
theorem regexTurn_spaced_anchor (hspace : isSpace w = true) (before rest : List Char)
    (mark : Option Place) :
    regexTurn .spaced .regexNoSpace (spacedBehind before units ('$' :: w :: rest) mark) =
      .done (some (.regexNoSpace,
        (spacedBehind before units ('$' :: w :: rest) mark).cursor.consume.markEnd)) := by
  have hparen : w ≠ '(' := ne_of_test (by decide) hspace
  simp [regexTurn, spacedTurn, spacedBehind, Groups.count, hspace, hparen]

/-- Reading ends at whitespace outside parentheses. It is a regex that has been read if there
was an anchor in front of the whitespace, or something significant. -/
theorem runRegex_until_space (unbroken : Unbroken units) (hspace : isSpace w = true)
    (closed : (Groups.leftOpen (singles units)).parens = 0) (before rest : List Char) :
    runRegex .spaced .regexNoSpace
        (spacedBehind before [] (patternText units ++ w :: rest)
          (some (.between before (patternText units ++ w :: rest)))) =
      if MakesRegex units then
        some (.regexNoSpace, ⟨.between (before ++ patternText units) (w :: rest),
          .between before (patternText units ++ w :: rest),
          some (.between (before ++ patternText units) (w :: rest))⟩)
      else none := by
  by_cases hanchor : units.getLast? = some (.single '$')
  · rw [if_pos (.inl hanchor)]
    obtain ⟨front, rfl⟩ := List.getLast?_eq_some_iff.mp hanchor
    have hcontinues : front.getLast? = some (.single '$') → ContinuesDollar ('$' :: w :: rest) :=
      fun hdollar => unbroken.continues hdollar _
    obtain ⟨mark, hrun⟩ := runRegex_unbroken unbroken.beginning hcontinues before _
    have htext : patternText (front ++ [.single '$']) ++ w :: rest =
        patternText front ++ '$' :: w :: rest := by simp
    rw [htext, hrun]
    refine (Turn.run_of_done (regexTurn_spaced_anchor hspace _ rest mark)).trans ?_
    simp [spacedBehind]
  · have hcontinues : units.getLast? = some (.single '$') → ContinuesDollar (w :: rest) :=
      fun hdollar => absurd hdollar hanchor
    obtain ⟨mark, hrun⟩ := runRegex_unbroken unbroken hcontinues before _
    simp only [MakesRegex, hanchor, false_or]
    exact hrun.trans (Turn.run_of_done (regexTurn_spaced_space hspace closed _ rest mark))

/-! ## The call -/

variable {space text : List Char}

/-- Where neither whitespace nor a quote comes first, reading begins. -/
theorem resolveRegex_spaced (blank : ∀ c ∈ space, isSpace c = true)
    (begins : ∀ c ∈ text.head?, isSpace c = false ∧ isQuote c = false) (before : List Char) :
    resolveRegex spacedRegexes (.begin (.between before (space ++ text))) =
      .ofClaim (runRegex .spaced .regexNoSpace
        (spacedBehind (before ++ space) [] text (some (.between (before ++ space) text)))) := by
  have hquote : isQuote (Place.between (before ++ space) text).lookahead = false :=
    Place.lookahead_between (isQuote · = false) (by decide) fun c hc => (begins c hc).2
  have hfresh : freshRegex (.between (before ++ space) text) (.between (before ++ space) text) =
      spacedBehind (before ++ space) [] text (some (.between (before ++ space) text)) := by
    simp [freshRegex, spacedBehind]
  rw [resolveRegex_between (by simp [spacedRegexes]) (by simp [spacedRegexes]) blank
    (fun c hc => (begins c hc).1), if_neg (by simp [hquote]), hfresh]
  rfl

/-- A regex in front of whitespace outside parentheses is returned whole if it has an anchor at
its end or something in it that a plain word cannot contain; otherwise the call declines. What
comes behind the whitespace does not matter, and the state stays. -/
theorem spaced_regex_extent (nonempty : units ≠ []) (unbroken : Unbroken units)
    (unquoted : ∀ c ∈ (patternText units).head?, isQuote c = false)
    (closed : (Groups.leftOpen (singles units)).parens = 0)
    (blank : ∀ c ∈ space, isSpace c = true) (hspace : isSpace w = true)
    (s : State) (before rest : List Char) :
    (MakesRegex units →
      Sees [.call spacedRegexes]
        ⟨s, .between before (space ++ (patternText units ++ w :: rest))⟩
        [(some (.regexNoSpace, patternText units),
          .between (before ++ space ++ patternText units) (w :: rest))]
        ⟨s, .between (before ++ space ++ patternText units) (w :: rest)⟩) ∧
    (¬ MakesRegex units →
      Sees [.call spacedRegexes]
        ⟨s, .between before (space ++ (patternText units ++ w :: rest))⟩
        [(none, .between before (space ++ (patternText units ++ w :: rest)))]
        ⟨s, .between before (space ++ (patternText units ++ w :: rest))⟩) := by
  have hbegins : ∀ c ∈ (patternText units ++ w :: rest).head?,
      isSpace c = false ∧ isQuote c = false := by
    obtain ⟨unit, units, rfl⟩ := List.exists_cons_of_ne_nil nonempty
    cases unit <;> exact fun c hc => ⟨unbroken.not_isSpace c hc, unquoted c hc⟩
  have hrules := resolveRegex_spaced blank hbegins before
  rw [runRegex_until_space unbroken hspace closed] at hrules
  constructor
  · intro hregex
    rw [if_pos hregex] at hrules
    have hcounted := congrArg (Ruling.counted spacedRegexes) hrules
    rw [Ruling.ofClaim, Ruling.counted, if_pos (by decide)] at hcounted
    exact acceptsRegexes_spaced.sees hcounted rfl rfl s
  · intro hword
    rw [if_neg hword] at hrules
    exact acceptsRegexes_spaced.sees_nothing (by rw [hrules]; rfl) s

/-- Whitespace and an escaped closer in a group, and an anchor. -/
theorem spaced_regex_extent_anchored :
    let units : List PatternUnit :=
      [.single '(', .single ' ', .escaped ')', .single ')', .single '$']
    units ≠ [] ∧ Unbroken units ∧ (∀ c ∈ (patternText units).head?, isQuote c = false) ∧
    (Groups.leftOpen (singles units)).parens = 0 ∧ (∀ c ∈ ['\t'], isSpace c = true) ∧
    isSpace ' ' = true ∧
    Sees [.call spacedRegexes]
      ⟨State.initial, .between [] (['\t'] ++ (patternText units ++ ' ' :: [']', ']']))⟩
      [(some (.regexNoSpace, patternText units),
        .between ([] ++ ['\t'] ++ patternText units) (' ' :: [']', ']']))]
      ⟨State.initial, .between ([] ++ ['\t'] ++ patternText units) (' ' :: [']', ']'])⟩ := by
  intro units
  have hunbroken : Unbroken units :=
    ((((unbroken_nil.concat (by decide) (by decide)).concat (by decide) (by decide)).concat
      (by decide) (by decide)).concat (by decide) (by decide)).concat (by decide) (by decide)
  have hunquoted : ∀ c ∈ (patternText units).head?, isQuote c = false := by
    rintro _ ⟨⟩
    decide
  have hblank : ∀ c ∈ ['\t'], isSpace c = true := List.forall_mem_singleton.mpr (by decide)
  have hspace : isSpace ' ' = true := by decide
  have hextent := spaced_regex_extent (by decide) hunbroken hunquoted (by decide) hblank hspace
    State.initial [] [']', ']']
  exact ⟨by decide, hunbroken, hunquoted, by decide, hblank, hspace, hextent.1 (by decide)⟩

end ContextLexer.Shell
