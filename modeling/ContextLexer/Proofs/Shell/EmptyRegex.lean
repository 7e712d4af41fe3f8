/-
# Empty regexes

Every call for a regex decides at first that the token ends where it begins, and moves that end
while it reads. A closer of a group that was not opened ends the regex wherever that end is by
then. In front of a slash, whitespace does not move it, and in front of whitespace nothing but a
dollar sign does. So there are texts of which a call makes an empty token; here it is found out
which ones.
-/

import ContextLexer.Proofs.Shell.SlashedRegex
import ContextLexer.Proofs.Shell.SpacedRegex

namespace ContextLexer

/-! ## Tokens with something in them -/

namespace Cursor

variable {c : Cursor}

/-- The cursor stands behind the place where the token starts. -/
def Started (c : Cursor) : Prop := c.start.index < c.place.index

/-- It has been decided that the token ends behind the place where it starts. -/
def Covers (c : Cursor) : Prop := c.Started ∧ ∃ stop ∈ c.mark, c.start.index < stop.index

theorem Started.consume (h : c.Started) : c.consume.Started :=
  Nat.lt_of_lt_of_le h (Place.Onward.next c.place).index_le

theorem Started.markEnd (h : c.Started) : c.markEnd.Covers := ⟨h, c.place, rfl, h⟩

theorem Covers.consume (h : c.Covers) : c.consume.Covers := ⟨h.1.consume, h.2⟩

theorem Covers.markEnd (h : c.Covers) : c.markEnd.Covers := h.1.markEnd

/-- Behind a character that is read the token has started. -/
theorem started_consume (h : c.lookahead ≠ '\x00') (hplace : c.start.index ≤ c.place.index) :
    c.consume.Started := by
  have hread := Consumes.consume (Place.atEnd_of_lookahead h)
  obtain ⟨before, after, hfrom, hto⟩ := hread.leads
  rw [Started, hto, Place.index_between, List.length_append, List.length_singleton]
  rw [hfrom, Place.index_between] at hplace
  exact Nat.lt_succ_of_le hplace

theorem Covers.token_isEmpty {κ : Type} (h : c.Covers) (kind : κ) :
    (c.token kind).isEmpty = false := by
  obtain ⟨-, stop, hmark, hless⟩ := h
  have hstop : c.stop = stop := by rw [Cursor.stop, hmark, Option.getD_some]
  have hne : c.start ≠ stop := fun heq => Nat.lt_irrefl _ (heq ▸ hless)
  simpa [token, Token.isEmpty, tokenStart, hstop, Nat.lt_asymm hless] using hne

/-- A token that ends where it starts has nothing in it. -/
theorem token_isEmpty_of_mark {κ : Type} (h : c.mark = some c.start) (kind : κ) :
    (c.token kind).isEmpty = true := by
  simp [token, Token.isEmpty, tokenStart, stop, h]

end Cursor

namespace Shell

open Scanner (Sees)

/-- What is claimed, if anything, has something in it. -/
def Solid (claim : Claim Kind) : Prop := ∀ found ∈ claim, found.2.Covers

@[simp] theorem solid_none : Solid none := by simp [Solid]

@[simp] theorem solid_some {kind : Kind} {c : Cursor} : Solid (some (kind, c)) ↔ c.Covers := by
  simp [Solid]

theorem solid_ite {condition : Prop} [Decidable condition] {kind : Kind} {c : Cursor}
    (h : condition → c.Covers) : Solid (if condition then some (kind, c) else none) := by
  split
  · next hcondition => exact solid_some.mpr (h hcondition)
  · exact solid_none

variable {accepted : Accepted} {style : RegexStyle} {kind : Kind} {now : Regex} {p : Place}
  {before space rest text : List Char} {units : List PatternUnit} {closer c : Char}

/-! ## Regexes that cover something -/

theorem bracedTurn_covers (h : now.cursor.Covers) :
    (bracedTurn now).LeadsTo (·.cursor.Covers) Solid := by
  simp only [bracedTurn, Turn.leadsTo_again]
  split
  · exact h.consume.markEnd
  · exact h.consume

theorem slashedTurn_covers (h : now.cursor.Covers) :
    (slashedTurn now).LeadsTo (·.cursor.Covers) Solid := by
  simp only [slashedTurn]
  split
  · exact solid_ite fun _ => h.markEnd
  split
  · split
    · exact h.consume
    · exact h.consume.consume.markEnd
  · rw [Turn.leadsTo_again]
    split
    · exact h.consume
    · exact h.consume.markEnd

theorem spacedTurn_covers (h : now.cursor.Covers) :
    (spacedTurn now).LeadsTo (·.cursor.Covers) Solid := by
  simp only [spacedTurn]
  split
  · exact h.consume.consume
  split
  · split
    · exact solid_none
    split
    · exact solid_some.mpr h.markEnd.consume.markEnd
    · exact h.markEnd.consume
  split
  · exact solid_ite fun _ => h.markEnd
  · exact h.consume

/-- Once a regex covers something it does so in all later turns, and when it is claimed. -/
theorem regexTurn_covers (style : RegexStyle) (kind : Kind) (h : now.cursor.Covers) :
    (regexTurn style kind now).LeadsTo (·.cursor.Covers) Solid := by
  unfold regexTurn
  split
  · exact solid_none
  split
  · rw [Turn.leadsTo_done]
    split
    · exact solid_none
    · exact solid_some.mpr h
  · cases style with
    | braced => exact bracedTurn_covers h
    | slashed => exact slashedTurn_covers h
    | spaced => exact spacedTurn_covers h

theorem runRegex_covers (h : now.cursor.Covers) : Solid (runRegex style kind now) :=
  Turn.run_of_leadsTo _ (fun _ => regexTurn_covers style kind) h

/-- A turn decides for the run, together with the run from where it leads. -/
theorem solid_runRegex_iff :
    Solid (runRegex style kind now) ↔ (regexTurn style kind now).LeadsTo
      (fun later => Solid (runRegex style kind later)) Solid := by
  rw [runRegex, Turn.run_eq]
  cases regexTurn style kind now <;> exact Iff.rfl

/-- At the end of the text nothing is claimed. -/
theorem solid_of_nul (hnul : now.cursor.lookahead = '\x00') : Solid (runRegex style kind now) :=
  solid_runRegex_iff.mpr (by simp [regexTurn, Cursor.sees, hnul])

/-! ## Up to the end of an expansion -/

/-- A regex up to the end of an expansion covers its first character. -/
theorem solid_braced (solid : isSpace p.lookahead = false) :
    Solid (runRegex .braced kind (freshRegex p p)) := by
  refine solid_runRegex_iff.mpr ?_
  unfold regexTurn
  split
  · exact solid_none
  next hnul =>
  split
  · exact solid_none
  · have hread : (freshRegex p p).cursor.consume.Started :=
      Cursor.started_consume (by simpa [Cursor.sees] using hnul) (Nat.le_refl _)
    have hkept : isSpace (freshRegex p p).cursor.lookahead = false := solid
    simp only [bracedTurn, hkept, Turn.leadsTo_again]
    exact runRegex_covers hread.markEnd

/-! ## In front of a slash -/

/-- A regex in front of a slash, behind whitespace. -/
def blankBehind (before space rest : List Char) : Regex where
  cursor := ⟨.between (before ++ space) rest, .between before (space ++ rest),
    some (.between before (space ++ rest))⟩
  groups := .ofParens 0
  advanced := decide (space ≠ [])
  significant := false

/-- Whitespace is read, and does not move the end of the token. -/
theorem regexTurn_blank (kind : Kind) (hspace : isSpace c = true) (before space rest : List Char) :
    regexTurn .slashed kind (blankBehind before space (c :: rest)) =
      .again (blankBehind before (space ++ [c]) rest) := by
  have hne {x : Char} (hx : isSpace x = false) : c ≠ x := ne_of_test hx hspace
  have hnul := hne (x := '\x00') (by decide)
  have hslash := hne (x := '/') (by decide)
  have hback := hne (x := '\\') (by decide)
  simp [regexTurn, slashedTurn, blankBehind, Groups.count_of_isSpace hspace, hspace, hnul, hslash,
    hback]

theorem runRegex_blank (kind : Kind) (blank : ∀ c ∈ space, isSpace c = true)
    (before rest : List Char) :
    runRegex .slashed kind (freshRegex (.between before (space ++ rest))
        (.between before (space ++ rest))) =
      runRegex .slashed kind (blankBehind before space rest) := by
  have hfresh : freshRegex (.between before (space ++ rest)) (.between before (space ++ rest)) =
      blankBehind before [] (space ++ rest) := by
    simp [freshRegex, blankBehind]
  rw [hfresh]
  refine Turn.run_along (fun front back => blankBehind before front (back ++ rest)) ?_
  rintro front c back rfl
  exact regexTurn_blank kind (blank c (by simp)) before front (back ++ rest)

/-- A backslash that takes no character along does not move the end of the token. But what
comes behind it moves it, unless the text is over. -/
theorem solid_backslash (started : now.cursor.Started)
    (next : now.cursor.lookahead ∈ ['\x00', '[', '/']) :
    Solid (runRegex .slashed kind now) := by
  simp only [List.mem_cons, List.not_mem_nil, or_false] at next
  rcases next with hnul | hbracket | hslash
  · exact solid_of_nul hnul
  · refine solid_runRegex_iff.mpr ?_
    simpa [regexTurn, slashedTurn, Cursor.sees, hbracket, Groups.count] using
      runRegex_covers started.consume.markEnd
  · refine solid_runRegex_iff.mpr ?_
    simpa [regexTurn, slashedTurn, Cursor.sees, hslash, Groups.count] using
      solid_ite fun _ => started.markEnd

/-- In front of anything but whitespace and an unopened closer, a regex that a slash ends
covers something. -/
theorem solid_slashed (behind : now.cursor.start.index ≤ now.cursor.place.index)
    (started : now.advanced = true → now.cursor.Started)
    (solid : isSpace now.cursor.lookahead = false)
    (hopen : ¬ now.groups.Unopened now.cursor.lookahead) :
    Solid (runRegex .slashed kind now) := by
  refine solid_runRegex_iff.mpr ?_
  unfold regexTurn
  split
  · exact solid_none
  next hnul =>
  split
  · next hnone => exact absurd (Groups.count_eq_none_iff.mp hnone) hopen
  have hread : now.cursor.consume.Started :=
    Cursor.started_consume (by simpa [Cursor.sees] using hnul) behind
  simp only [slashedTurn]
  split
  · exact solid_ite fun hadvanced => (started hadvanced).markEnd
  split
  · split
    · next hnext =>
      rw [Turn.leadsTo_again]
      refine solid_backslash hread ?_
      rcases Bool.or_eq_true_iff.mp hnext with hnext | hslash
      · rcases Bool.or_eq_true_iff.mp hnext with hend | hbracket
        · simp [Cursor.lookahead_of_atEnd hend]
        · simp [of_decide_eq_true hbracket]
      · simp [of_decide_eq_true hslash]
    · exact runRegex_covers hread.consume.markEnd
  · simp only [solid, Turn.leadsTo_again]
    exact runRegex_covers hread.markEnd

/-! ## In front of whitespace -/

/-- Units in a row in front of a rest, behind which the token still ends where it starts. -/
structure Undecided (units : List PatternUnit) (rest : List Char) : Prop where
  unbroken : Unbroken units
  /-- Only the first of them can be a dollar sign. -/
  bare : .single '$' ∉ units.tail
  /-- The dollar sign neither begins an expansion nor is an anchor. -/
  continues : units.getLast? = some (.single '$') → ContinuesDollar rest

/-- Undecided units, and behind them a closer whose group they do not leave open. -/
def StopsShort (text : List Char) : Prop :=
  ∃ units closer rest, text = patternText units ++ closer :: rest ∧
    Undecided units (closer :: rest) ∧ (Groups.leftOpen (singles units)).Unopened closer

section

variable {unit : PatternUnit}

theorem undecided_nil (rest : List Char) : Undecided [] rest := ⟨unbroken_nil, by simp, by simp⟩

theorem Undecided.beginning {more : List PatternUnit} (h : Undecided (units ++ more) rest) :
    Undecided units (patternText more ++ rest) where
  unbroken := h.unbroken.beginning
  bare := by
    cases units with
    | nil => simp
    | cons first units => exact fun hmem => h.bare (List.mem_append_left _ hmem)
  continues hlast := by
    cases more with
    | nil => exact h.continues (by simpa using hlast)
    | cons unit more =>
        rw [patternText_cons, List.append_assoc]
        exact h.unbroken.continues hlast _

theorem Undecided.concat (h : Undecided units (unit.text ++ rest)) (fits : FitsBehind units unit)
    (dollar : unit = .single '$' → units = [] ∧ ContinuesDollar rest) :
    Undecided (units ++ [unit]) rest where
  unbroken := h.unbroken.concat fits fun hlast => by
    have hcontinues := h.continues hlast
    cases unit <;> exact hcontinues
  bare := by
    cases units with
    | nil => simp
    | cons first units =>
        have hunit : unit ≠ .single '$' := fun hunit => List.cons_ne_nil _ _ (dollar hunit).1
        simpa [Ne.symm hunit] using h.bare
  continues hlast := (dollar (by simpa using hlast)).2

/-- A regex that is read in front of whitespace, while the token ends where it starts. -/
def undecidedBehind (before : List Char) (units : List PatternUnit) (rest : List Char) : Regex :=
  spacedBehind before units rest (some (.between before (patternText units ++ rest)))

/-- Reading undecided units does not move the end of the token. -/
theorem regexTurn_undecided_unit (h : Undecided (units ++ [unit]) rest) (before : List Char) :
    regexTurn .spaced .regexNoSpace (undecidedBehind before units (unit.text ++ rest)) =
      .again (undecidedBehind before (units ++ [unit]) rest) := by
  have hdollar : unit = .single '$' → units = [] := by
    rintro rfl
    cases units with
    | nil => rfl
    | cons first units => exact absurd (by simp) h.bare
  have hcontinues : unit = .single '$' → ContinuesDollar rest := fun hunit =>
    h.continues (by simp [hunit])
  rw [undecidedBehind, regexTurn_spaced_unit h.unbroken hcontinues]
  split
  · next hunit => simp [undecidedBehind, hunit, hdollar hunit]
  · simp [undecidedBehind, patternText_cons]

theorem runRegex_undecided (h : Undecided units rest) (before : List Char) :
    runRegex .spaced .regexNoSpace (undecidedBehind before [] (patternText units ++ rest)) =
      runRegex .spaced .regexNoSpace (undecidedBehind before units rest) := by
  refine Turn.run_along
    (fun front back => undecidedBehind before front (patternText back ++ rest)) ?_
  rintro front unit back rfl
  have hfront : Undecided (front ++ [unit]) (patternText back ++ rest) := by
    rw [List.append_cons] at h
    exact h.beginning
  rw [patternText_cons, List.append_assoc]
  exact regexTurn_undecided_unit hfront before

/-- Behind the first unit the token has started. -/
theorem started_spacedBehind (nonempty : units ≠ []) (before rest : List Char)
    (mark : Option Place) : (spacedBehind before units rest mark).cursor.Started := by
  obtain ⟨unit, units, rfl⟩ := List.exists_cons_of_ne_nil nonempty
  cases unit <;> simp [Cursor.Started, spacedBehind, Place.index_between]

/-- A regex that comes to cover something, or of which nothing but undecided units have been
read. -/
def Pending (before text : List Char) (now : Regex) : Prop :=
  Solid (runRegex .spaced .regexNoSpace now) ∨
    ∃ units rest, patternText units ++ rest = text ∧ Undecided units rest ∧
      now = undecidedBehind before units rest

/-- A turn behind undecided units keeps the regex pending, or ends with a regex that covers
something, or at a closer that stops it short. -/
def Proceeds (before : List Char) (units : List PatternUnit) (rest : List Char) : Prop :=
  (regexTurn .spaced .regexNoSpace (undecidedBehind before units rest)).LeadsTo
    (Pending before (patternText units ++ rest))
    (fun claim => Solid claim ∨ StopsShort (patternText units ++ rest))

theorem Undecided.proceeds_unit (h : Undecided (units ++ [unit]) rest) (before : List Char) :
    Proceeds before units (unit.text ++ rest) := by
  rw [Proceeds, regexTurn_undecided_unit h]
  exact .inr ⟨_, _, by simp [patternText_cons], h, rfl⟩

/-- A dollar sign is read if it comes first. Otherwise the token ends in front of it, unless it
begins an expansion. -/
theorem Undecided.proceeds_dollar (h : Undecided units ('$' :: rest)) (before : List Char) :
    Proceeds before units ('$' :: rest) := by
  by_cases hnext : ContinuesDollar rest
  · have hfits : FitsBehind units (.single '$') :=
      ⟨by decide, by decide, by simp [Groups.Unopened], fun hspace => absurd hspace (by decide)⟩
    by_cases hfirst : units = []
    · have hmore : Undecided (units ++ [.single '$']) rest :=
        h.concat hfits fun _ => ⟨hfirst, hnext⟩
      exact hmore.proceeds_unit before
    · have hlast : units.getLast? = some (.single '$') → ContinuesDollar ['$'] := fun _ => by decide
      have hunbroken : Unbroken (units ++ [.single '$']) := h.unbroken.concat hfits hlast
      have hturn : regexTurn .spaced .regexNoSpace (undecidedBehind before units ('$' :: rest)) =
          .again (spacedBehind before (units ++ [.single '$']) rest
            (some (.between (before ++ patternText units) ('$' :: rest)))) :=
        regexTurn_spaced_unit hunbroken fun _ => hnext
      rw [Proceeds, hturn]
      refine .inl (runRegex_covers ⟨started_spacedBehind (by simp) _ _ _, _, rfl, ?_⟩)
      exact started_spacedBehind hfirst before ('$' :: rest) none
  · obtain ⟨x, more, rfl⟩ : ∃ x more, rest = x :: more := by
      cases rest with
      | nil => exact absurd (by simp [ContinuesDollar]) hnext
      | cons x more => exact ⟨x, more, rfl⟩
    by_cases hspace : isSpace x = true
    · rw [Proceeds, undecidedBehind, regexTurn_spaced_anchor hspace]
      refine .inl (solid_some.mpr (Cursor.Started.markEnd (Cursor.started_consume ?_ ?_)))
      · simp [spacedBehind]
      · simp [spacedBehind, Place.index_between]
    · have hparen : x = '(' := by simpa [ContinuesDollar, hspace] using hnext
      simp [Proceeds, regexTurn, spacedTurn, undecidedBehind, spacedBehind, Groups.count, hparen]

/-- A backslash takes any character along. If none is left, the next turn meets the end of the
text. -/
theorem Undecided.proceeds_backslash (h : Undecided units ('\\' :: rest)) (before : List Char) :
    Proceeds before units ('\\' :: rest) := by
  cases rest with
  | nil =>
      have hend : (Place.between (before ++ (patternText units ++ ['\\'])) []).next =
          .between (before ++ (patternText units ++ ['\\'])) [] := rfl
      have hturn : regexTurn .spaced .regexNoSpace (undecidedBehind before units ['\\']) =
          .again { undecidedBehind before (units ++ [.single '\\']) [] with
            groups := .leftOpen (singles units), significant := true } := by
        simp [regexTurn, spacedTurn, undecidedBehind, spacedBehind, Groups.count, hend]
      rw [Proceeds, hturn]
      exact .inl (solid_of_nul rfl)
  | cons x rest =>
      have hmore : Undecided (units ++ [.escaped x]) rest := h.concat trivial (by simp)
      exact hmore.proceeds_unit before

/-- Nothing but a closer that stops it short keeps a regex from covering something. -/
theorem Undecided.proceeds (h : Undecided units rest) (before : List Char) :
    Proceeds before units rest := by
  -- The characters are told apart in the order in which a turn looks at them.
  cases rest with
  | nil => simp [Proceeds, regexTurn, undecidedBehind, spacedBehind]
  | cons c rest =>
      by_cases hnul : c = '\x00'
      · simp [Proceeds, regexTurn, undecidedBehind, spacedBehind, hnul]
      by_cases hclosed : (Groups.leftOpen (singles units)).Unopened c
      · have hstops : StopsShort (patternText units ++ c :: rest) :=
          ⟨units, c, rest, rfl, h, hclosed⟩
        simp [Proceeds, regexTurn, undecidedBehind, spacedBehind, hnul,
          Groups.count_eq_none_iff.mpr hclosed, hstops]
      by_cases hback : c = '\\'
      · subst hback
        exact h.proceeds_backslash before
      by_cases hdollar : c = '$'
      · subst hdollar
        exact h.proceeds_dollar before
      by_cases hsep : isSpace c = true ∧ (Groups.leftOpen (singles units)).parens = 0
      · obtain ⟨hspace, hparens⟩ := hsep
        rw [Proceeds, undecidedBehind, regexTurn_spaced_space hspace hparens]
        refine .inl (solid_ite fun hsignificant => ?_)
        obtain ⟨unit, hmem, -⟩ := hsignificant
        exact (started_spacedBehind (List.ne_nil_of_mem hmem) _ _ _).markEnd
      · have hopen : isSpace c = true → 0 < (Groups.leftOpen (singles units)).parens :=
          fun hspace => Nat.pos_of_ne_zero fun hparens => hsep ⟨hspace, hparens⟩
        have hmore : Undecided (units ++ [.single c]) rest :=
          h.concat ⟨hback, hnul, hclosed, hopen⟩ (by simp [hdollar])
        exact hmore.proceeds_unit before

end

theorem freshRegex_undecided (before text : List Char) :
    freshRegex (.between before text) (.between before text) =
      undecidedBehind before [] text := by
  simp [freshRegex, undecidedBehind, spacedBehind]

/-- A regex in front of whitespace covers something, unless a closer stops it short. -/
theorem solid_spaced_or (before text : List Char) :
    Solid (runRegex .spaced .regexNoSpace
      (freshRegex (.between before text) (.between before text))) ∨ StopsShort text := by
  rw [freshRegex_undecided]
  have hleads (now : Regex) (hpending : Pending before text now) :
      (regexTurn .spaced .regexNoSpace now).LeadsTo (Pending before text)
        (fun claim => Solid claim ∨ StopsShort text) := by
    rcases hpending with hsolid | ⟨units, rest, rfl, hundecided, rfl⟩
    · exact (solid_runRegex_iff.mp hsolid).mono (fun _ => .inl) (fun _ => .inl)
    · exact hundecided.proceeds before
  exact Turn.run_of_leadsTo _ hleads (.inr ⟨[], text, rfl, undecided_nil text, rfl⟩)

/-! ## The call -/

/-- Texts in which a closer breaks a regex off while its token still ends where it starts. -/
inductive BreaksOff (accepted : Accepted) : List Char → Prop
  /-- If a slash may end the regex, whitespace may be in front of the closer. -/
  | slashed {space rest : List Char} {closer : Char} (slash : .regexNoSlash ∈ accepted)
      (blank : ∀ c ∈ space, isSpace c = true) (closed : (Groups.ofParens 0).Unopened closer) :
      BreaksOff accepted (space ++ closer :: rest)
  /-- If only whitespace may end it, every row of units may be, as long as no dollar sign
  decides where the token ends. -/
  | spaced {space text : List Char} (slashless : .regexNoSlash ∉ accepted)
      (blank : ∀ c ∈ space, isSpace c = true) (unquoted : ∀ c ∈ text.head?, isQuote c = false)
      (short : StopsShort text) : BreaksOff accepted (space ++ text)

/-- A regex begins behind whitespace, in front of anything else if whitespace is ignored. -/
theorem exists_regexPlace (accepted : Accepted) (p : Place) :
    ∃ before space text, p = .between before (space ++ text) ∧ (∀ c ∈ space, isSpace c = true) ∧
      regexPlace accepted p = .between (before ++ space) text ∧
      (.regex ∈ accepted ∨ .regexNoSpace ∈ accepted → ∀ c ∈ text.head?, isSpace c = false) := by
  obtain ⟨before, hp⟩ := p.exists_between
  by_cases hspacious : .regex ∈ accepted ∨ .regexNoSpace ∈ accepted
  · obtain ⟨space, text, hahead, blank, begins⟩ := exists_run isSpace p.ahead
    rw [hahead] at hp
    refine ⟨before, space, text, hp, blank, ?_, fun _ => begins⟩
    rw [regexPlace, if_pos hspacious, hp, Place.skipWhile_between blank begins]
  · refine ⟨before, [], p.ahead, hp, by simp, ?_, fun h => absurd h hspacious⟩
    rw [regexPlace, if_neg hspacious, List.append_nil, ← hp]

theorem solid_counted {claim : Claim Kind} (h : Solid claim) :
    Solid ((Ruling.ofClaim claim).counted accepted) := by
  obtain _ | ⟨kind, c⟩ := claim
  · exact solid_none
  · rw [Ruling.ofClaim, Ruling.counted]
    split
    · exact h
    · exact solid_none

/-- Behind whitespace a regex in front of a slash covers something, or a closer breaks it off. -/
theorem solid_slashed_or (slash : .regexNoSlash ∈ accepted) (before text : List Char) :
    Solid (runRegex .slashed kind (freshRegex (.between before text) (.between before text))) ∨
      BreaksOff accepted text := by
  obtain ⟨space, rest, rfl, blank, begins⟩ := exists_run isSpace text
  rw [runRegex_blank kind blank]
  cases rest with
  | nil => exact .inl (solid_of_nul rfl)
  | cons c rest =>
      by_cases hclosed : (Groups.ofParens 0).Unopened c
      · exact .inr (.slashed slash blank hclosed)
      · refine .inl (solid_slashed ?_ ?_ (begins c rfl) hclosed)
        · simp [blankBehind, Place.index_between]
        · intro hadvanced
          have hspace : space ≠ [] := of_decide_eq_true hadvanced
          simp [blankBehind, Cursor.Started, Place.index_between, List.length_pos_iff, hspace]

theorem BreaksOff.of_space (h : BreaksOff accepted text) (blank : ∀ c ∈ space, isSpace c = true) :
    BreaksOff accepted (space ++ text) := by
  cases h with
  | slashed slash hblank hclosed =>
      rw [← List.append_assoc]
      exact .slashed slash (List.forall_mem_append.mpr ⟨blank, hblank⟩) hclosed
  | spaced slashless hblank unquoted short =>
      rw [← List.append_assoc]
      exact .spaced slashless (List.forall_mem_append.mpr ⟨blank, hblank⟩) unquoted short

/-- A host that accepts neither of the others accepts a regex that whitespace ends. -/
theorem AcceptsRegexes.spaced (h : AcceptsRegexes accepted) (hbraced : .regex ∉ accepted)
    (hslash : .regexNoSlash ∉ accepted) : .regexNoSpace ∈ accepted := by
  obtain ⟨kind, hkind⟩ := h.nonempty
  have hmem := h.only kind hkind
  simp only [List.mem_cons, List.not_mem_nil, or_false] at hmem
  rcases hmem with rfl | rfl | rfl
  · exact absurd hkind hbraced
  · exact absurd hkind hslash
  · exact hkind

/-- A call for regexes makes no empty token, unless a closer breaks the regex off. -/
theorem AcceptsRegexes.solid_or (h : AcceptsRegexes accepted) (p : Place) :
    Solid ((resolveRegex accepted (.begin p)).counted accepted) ∨
      .regex ∉ accepted ∧ BreaksOff accepted p.ahead := by
  obtain ⟨before, space, text, rfl, blank, hplace, begins⟩ := exists_regexPlace accepted p
  rw [resolveRegex_begin, hplace]
  split
  · exact .inl solid_none
  next hquote =>
  split
  · next hdollar =>
    split
    · exact .inl solid_none
    · -- The dollar sign is in the token already.
      have hread : (Cursor.begin (.between (before ++ space) text)).consume.Started := by
        refine Cursor.started_consume ?_ (Nat.le_refl _)
        rw [Cursor.begin, Cursor.lookahead_mk, hdollar.2]
        decide
      exact .inl (solid_counted (runRegex_covers ⟨hread, _, rfl, hread⟩))
  · by_cases hbraced : .regex ∈ accepted
    · have hspace : isSpace (Place.between (before ++ space) text).lookahead = false :=
        Place.lookahead_between (isSpace · = false) (by decide) (begins (.inl hbraced))
      rw [regexStyle, if_pos hbraced]
      exact .inl (solid_counted (solid_braced hspace))
    rw [regexStyle, if_neg hbraced]
    split
    · next hslash =>
      refine (solid_slashed_or hslash _ text).imp solid_counted fun hbreaks => ?_
      exact ⟨hbraced, hbreaks.of_space blank⟩
    · next hslash =>
      have hunquoted : ∀ c ∈ text.head?, isQuote c = false := by
        cases text with
        | nil => simp
        | cons x text =>
            rintro c ⟨⟩
            exact Bool.eq_false_iff.mpr hquote
      rw [regexKind, if_neg hslash, if_pos (h.spaced hbraced hslash)]
      refine (solid_spaced_or _ text).imp solid_counted fun hshort => ?_
      exact ⟨hbraced, .spaced hslash blank hunquoted hshort⟩

/-- A closer is none of the characters at which reading does something else. -/
theorem Groups.Unopened.plain {groups : Groups} (h : groups.Unopened c) :
    isSpace c = false ∧ isQuote c = false ∧ c ≠ '$' ∧ c ≠ '\x00' := by
  rcases h with ⟨rfl, -⟩ | ⟨rfl, -⟩ | ⟨rfl, -⟩ <;> decide

/-- Whitespace in front of a closer is an empty regex, if a slash may end it. -/
theorem runRegex_blank_closer (kind : Kind) (blank : ∀ c ∈ space, isSpace c = true)
    (hclosed : (Groups.ofParens 0).Unopened closer) (before rest : List Char) :
    runRegex .slashed kind (freshRegex (.between before (space ++ closer :: rest))
        (.between before (space ++ closer :: rest))) =
      some (kind, (blankBehind before space (closer :: rest)).cursor) := by
  have hnul := hclosed.plain.2.2.2
  have hcount := Groups.count_eq_none_iff.mpr hclosed
  rw [runRegex_blank kind blank]
  exact Turn.run_of_done (by simp [regexTurn, blankBehind, hnul, hcount])

/-- Undecided units in front of a closer are an empty regex, if only whitespace may end it. -/
theorem runRegex_undecided_closer (h : Undecided units (closer :: rest))
    (hclosed : (Groups.leftOpen (singles units)).Unopened closer) (before : List Char) :
    runRegex .spaced .regexNoSpace
        (freshRegex (.between before (patternText units ++ closer :: rest))
          (.between before (patternText units ++ closer :: rest))) =
      some (.regexNoSpace, (undecidedBehind before units (closer :: rest)).cursor) := by
  have hnul := hclosed.plain.2.2.2
  have hcount := Groups.count_eq_none_iff.mpr hclosed
  rw [freshRegex_undecided, runRegex_undecided h]
  exact Turn.run_of_done (by simp [regexTurn, undecidedBehind, spacedBehind, hnul, hcount])

/-- The place where a regex begins whose text is whitespace up to a closer. -/
theorem exists_regexPlace_closer (accepted : Accepted) (blank : ∀ c ∈ space, isSpace c = true)
    (hclosed : (Groups.ofParens 0).Unopened closer) (before rest : List Char) :
    ∃ front more, regexPlace accepted (.between before (space ++ closer :: rest)) =
      .between front (more ++ closer :: rest) ∧ ∀ c ∈ more, isSpace c = true := by
  rw [regexPlace]
  split
  · have hstops : ∀ c ∈ (closer :: rest).head?, isSpace c = false := by
      rintro _ ⟨⟩
      exact hclosed.plain.1
    exact ⟨before ++ space, [], Place.skipWhile_between blank hstops, by simp⟩
  · exact ⟨before, space, rfl, blank⟩

theorem resolveRegex_slashed_short (unbraced : .regex ∉ accepted)
    (slash : .regexNoSlash ∈ accepted) (blank : ∀ c ∈ space, isSpace c = true)
    (hclosed : (Groups.ofParens 0).Unopened closer) (before rest : List Char) :
    ∃ c, resolveRegex accepted (.begin (.between before (space ++ closer :: rest))) =
      .claim .regexNoSlash c ∧ c.mark = some c.start := by
  obtain ⟨front, more, hplace, hmore⟩ :=
    exists_regexPlace_closer accepted blank hclosed before rest
  obtain ⟨hquote, hdollar⟩ :
      isQuote (Place.between front (more ++ closer :: rest)).lookahead = false ∧
        (Place.between front (more ++ closer :: rest)).lookahead ≠ '$' := by
    cases more with
    | nil => exact ⟨hclosed.plain.2.1, hclosed.plain.2.2.1⟩
    | cons x more =>
        have hne {y : Char} (hy : isSpace y = false) : x ≠ y :=
          ne_of_test hy (hmore x (by simp))
        have hsingle := hne (y := '\'') (by decide)
        have hdouble := hne (y := '\"') (by decide)
        exact ⟨by simp [isQuote, hsingle, hdouble], hne (by decide)⟩
  rw [resolveRegex_begin, hplace, if_neg (by simp [hquote]), if_neg (by simp [hdollar]),
    regexStyle, if_neg unbraced, if_pos slash, regexKind, if_pos slash,
    runRegex_blank_closer _ hmore hclosed]
  exact ⟨_, rfl, rfl⟩

theorem resolveRegex_spaced_short (unbraced : .regex ∉ accepted)
    (slashless : .regexNoSlash ∉ accepted) (spaced : .regexNoSpace ∈ accepted)
    (blank : ∀ c ∈ space, isSpace c = true) (unquoted : ∀ c ∈ text.head?, isQuote c = false)
    (short : StopsShort text) (before : List Char) :
    ∃ c, resolveRegex accepted (.begin (.between before (space ++ text))) =
      .claim .regexNoSpace c ∧ c.mark = some c.start := by
  obtain ⟨units, closer, rest, rfl, hundecided, hclosed⟩ := short
  have hbegins : ∀ c ∈ (patternText units ++ closer :: rest).head?, isSpace c = false := by
    cases units with
    | nil =>
        rintro _ ⟨⟩
        exact hclosed.plain.1
    | cons unit units => cases unit <;> exact hundecided.unbroken.not_isSpace
  have hquote : isQuote (Place.between (before ++ space)
      (patternText units ++ closer :: rest)).lookahead = false :=
    Place.lookahead_between (isQuote · = false) (by decide) unquoted
  rw [resolveRegex_between (.inr spaced) slashless blank hbegins, if_neg (by simp [hquote]),
    regexStyle, if_neg unbraced, if_neg slashless, regexKind, if_neg slashless, if_pos spaced,
    runRegex_undecided_closer hundecided hclosed]
  exact ⟨_, rfl, rfl⟩

/-- What a closer breaks off is an empty token. -/
theorem AcceptsRegexes.breaks_off (h : AcceptsRegexes accepted) (unbraced : .regex ∉ accepted)
    (breaks : BreaksOff accepted p.ahead) :
    ∃ kind c, (resolveRegex accepted (.begin p)).counted accepted = some (kind, c) ∧
      c.mark = some c.start := by
  obtain ⟨before, hp⟩ := p.exists_between
  generalize p.ahead = text at hp breaks
  rw [hp]
  cases breaks with
  | slashed slash blank hclosed =>
      obtain ⟨c, hclaim, hmark⟩ := resolveRegex_slashed_short unbraced slash blank hclosed before _
      exact ⟨.regexNoSlash, c, by rw [hclaim]; exact if_pos ⟨rfl, slash⟩, hmark⟩
  | spaced slashless blank unquoted short =>
      have hspaced := h.spaced unbraced slashless
      obtain ⟨c, hclaim, hmark⟩ :=
        resolveRegex_spaced_short unbraced slashless hspaced blank unquoted short before
      exact ⟨.regexNoSpace, c, by rw [hclaim]; exact if_pos ⟨rfl, hspaced⟩, hmark⟩

/-- A call for regexes makes an empty token just in case a closer breaks the regex off while
the token still ends where it starts; so never for a regex up to the end of an expansion. -/
theorem regex_empty_iff (h : AcceptsRegexes accepted) (s : State) (p : Place) :
    (∃ token, (Scanner.call s accepted p).token = some token ∧ token.isEmpty = true) ↔
      .regex ∉ accepted ∧ BreaksOff accepted p.ahead := by
  have hscan : Scanner.scan s accepted (.begin p) =
      ⟨s, (resolveRegex accepted (.begin p)).counted accepted⟩ := h.scan_eq s _
  constructor
  · rintro ⟨token, htoken, hempty⟩
    refine (h.solid_or p).resolve_left fun hsolid => ?_
    obtain ⟨c, hclaim, htext⟩ := Scanner.exists_claim_of_token htoken
    rw [hscan] at hclaim
    have hcovers : c.Covers := hsolid _ hclaim
    rw [← htext, hcovers.token_isEmpty] at hempty
    cases hempty
  · rintro ⟨unbraced, breaks⟩
    obtain ⟨kind, c, hclaim, hmark⟩ := h.breaks_off unbraced breaks
    have htoken : (Scanner.call s accepted p).token = some (c.token kind) := by
      rw [Scanner.call, hscan, hclaim]
      rfl
    exact ⟨_, htoken, Cursor.token_isEmpty_of_mark hmark kind⟩

/-- Whitespace, and units that a closer stops short. -/
theorem regex_empty_units :
    let units : List PatternUnit := [.single '$', .escaped '$', .single '(', .single ' ']
    AcceptsRegexes spacedRegexes ∧
    ∃ token, (Scanner.call State.initial spacedRegexes
        (.between [] ([' '] ++ (patternText units ++ [']'])))).token = some token ∧
      token.isEmpty = true := by
  intro units
  have hunbroken : Unbroken units :=
    (((unbroken_nil.concat (by decide) (by decide)).concat (by decide) (by decide)).concat
      (by decide) (by decide)).concat (by decide) (by decide)
  have hshort : StopsShort (patternText units ++ [']']) :=
    ⟨units, ']', [], rfl, ⟨hunbroken, by decide, by decide⟩, by decide⟩
  have hblank : ∀ c ∈ [' '], isSpace c = true := List.forall_mem_singleton.mpr (by decide)
  have hunquoted : ∀ c ∈ (patternText units ++ [']']).head?, isQuote c = false := by
    rintro _ ⟨⟩
    decide
  have hbreaks : BreaksOff spacedRegexes ([' '] ++ (patternText units ++ [']'])) :=
    .spaced (by decide) hblank hunquoted hshort
  exact ⟨acceptsRegexes_spaced,
    (regex_empty_iff acceptsRegexes_spaced State.initial _).mpr ⟨by decide, hbreaks⟩⟩

/-- A closer alone is an empty regex, if a slash may end it. The host is left where it was, and
a second call returns the same again. -/
theorem closer_makes_empty_regex :
    AcceptsRegexes slashedRegexes ∧
    Sees [.call slashedRegexes, .call slashedRegexes] ⟨State.initial, .between [] ['}']⟩
      [(some (.regexNoSlash, []), .between [] ['}']),
        (some (.regexNoSlash, []), .between [] ['}'])]
      ⟨State.initial, .between [] ['}']⟩ :=
  ⟨acceptsRegexes_slashed, rfl⟩

end Shell

end ContextLexer
