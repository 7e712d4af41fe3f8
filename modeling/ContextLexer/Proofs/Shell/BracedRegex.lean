/-
# Regexes up to the end of an expansion

Only a closer whose group was not opened in it ends a regex that fills the rest of an
expansion, so reading it goes through the longest text that closes just what it has opened.
Backslashes mean nothing here. Whitespace at the end belongs to the regex only inside
parentheses: the end of the token is decided behind every character that stays, whatever comes
behind it.
-/

import ContextLexer.Proofs.Shell.RegexCalls
import Mathlib.Data.List.DropRight
import Mathlib.Data.List.Induction

namespace ContextLexer.Shell

open Scanner (Sees)

/-- The host accepts a regex up to the end of an expansion, and nothing else. -/
def bracedRegexes : Accepted := .ofList [.regex]

theorem acceptsRegexes_braced : AcceptsRegexes bracedRegexes where
  nonempty := ⟨.regex, by simp [bracedRegexes]⟩
  only := by simp [bracedRegexes]

/-! ## The longest text that nests -/

/-- The longest beginning of a text in which there is no NUL and only groups are closed that
it has opened. -/
structure LongestNested (text pattern : List Char) : Prop where
  beginning : pattern <+: text
  solid : '\x00' ∉ pattern
  nests : (Groups.ofParens 0).Nests pattern
  longest : ∀ other, other <+: text → '\x00' ∉ other → (Groups.ofParens 0).Nests other →
    other.length ≤ pattern.length

variable {before space pattern rest : List Char} {c : Char}

/-- Every text has such a beginning. -/
theorem exists_longestNested (text : List Char) : ∃ pattern, LongestNested text pattern := by
  induction text using List.reverseRecOn with
  | nil =>
      refine ⟨[], List.prefix_rfl, by simp, Groups.nests_nil _, fun other hother _ _ => ?_⟩
      exact hother.length_le
  | append_singleton text c ih =>
      obtain ⟨pattern, hpattern⟩ := ih
      by_cases hall : '\x00' ∉ text ++ [c] ∧ (Groups.ofParens 0).Nests (text ++ [c])
      · refine ⟨text ++ [c], List.prefix_rfl, hall.1, hall.2, fun other hother _ _ => ?_⟩
        exact hother.length_le
      · refine ⟨pattern, hpattern.beginning.trans (List.prefix_append _ _), hpattern.solid,
          hpattern.nests, fun other hother hsolid hnests => ?_⟩
        rcases List.prefix_concat_iff.mp hother with rfl | hother
        · exact absurd ⟨hsolid, hnests⟩ hall
        · exact hpattern.longest other hother hsolid hnests

/-- What comes behind it is NUL or a closer of a group that it leaves not open. -/
theorem LongestNested.next (h : LongestNested (pattern ++ c :: rest) pattern) :
    c = '\x00' ∨ (Groups.leftOpen pattern).Unopened c := by
  by_contra hnext
  obtain ⟨hnul, hopen⟩ := not_or.mp hnext
  have hlonger := h.longest (pattern ++ [c]) (by simp) (by simp [h.solid, Ne.symm hnul])
    (Groups.nests_concat_iff.mpr ⟨h.nests, hopen⟩)
  rw [List.length_append, List.length_singleton] at hlonger
  exact Nat.not_succ_le_self _ hlonger

/-! ## What stays -/

/-- The text of the token: whitespace at the end of a pattern stays only in parentheses. -/
def bracedText (pattern : List Char) : List Char :=
  if 0 < (Groups.leftOpen pattern).parens then pattern else pattern.rdropWhile isSpace

theorem bracedText_prefix (pattern : List Char) : bracedText pattern <+: pattern := by
  rw [bracedText]
  split
  · exact List.prefix_rfl
  · exact List.rdropWhile_prefix _ _

/-- Up to a character that stays, everything stays. -/
theorem bracedText_concat_kept
    (kept : isSpace c = false ∨ 0 < (Groups.leftOpen (pattern ++ [c])).parens) :
    bracedText (pattern ++ [c]) = pattern ++ [c] := by
  rw [bracedText]
  split
  · rfl
  · next hclosed =>
    rw [List.rdropWhile_concat_neg]
    simpa [hclosed] using kept

/-- Outside parentheses whitespace at the end does not stay. -/
theorem bracedText_concat_space (hspace : isSpace c = true)
    (closed : (Groups.leftOpen (pattern ++ [c])).parens = 0) :
    bracedText (pattern ++ [c]) = bracedText pattern := by
  rw [bracedText, if_neg (by omega), List.rdropWhile_concat_pos _ _ _ hspace, bracedText, if_neg]
  rw [← Groups.leftOpen_concat_of_isSpace hspace]
  omega

/-! ## Reading -/

/-- A regex up to the end of an expansion, behind the part of it that has been read. -/
def bracedBehind (before pattern rest : List Char) : Regex where
  cursor := ⟨.between (before ++ pattern) rest, .between before (pattern ++ rest),
    some ((Place.between before (pattern ++ rest)).skip (bracedText pattern).length)⟩
  groups := .leftOpen pattern
  advanced := decide (pattern ≠ [])
  significant := false

/-- A turn reads one more character, and decides where the token ends if it stays. -/
theorem regexTurn_braced (hnul : c ≠ '\x00') (nests : (Groups.ofParens 0).Nests (pattern ++ [c]))
    (before rest : List Char) :
    regexTurn .braced .regex (bracedBehind before pattern (c :: rest)) =
      .again (bracedBehind before (pattern ++ [c]) rest) := by
  have hcount := Groups.count_leftOpen nests
  by_cases hkept : isSpace c = false ∨ 0 < (Groups.leftOpen (pattern ++ [c])).parens
  · have hmark : (Place.between before (pattern ++ c :: rest)).skip
        (bracedText (pattern ++ [c])).length = .between (before ++ (pattern ++ [c])) rest := by
      rw [bracedText_concat_kept hkept, ← Place.skip_between, List.append_assoc]
      rfl
    simp [regexTurn, bracedTurn, bracedBehind, hnul, hcount, hkept, hmark]
  · have hsame : bracedText (pattern ++ [c]) = bracedText pattern := by
      simp only [not_or, Bool.not_eq_false, Nat.not_lt, Nat.le_zero] at hkept
      exact bracedText_concat_space hkept.1 hkept.2
    simp [regexTurn, bracedTurn, bracedBehind, hnul, hcount, hkept, hsame]

/-- A text without NUL that nests is read character by character. -/
theorem runRegex_nested (solid : '\x00' ∉ pattern) (nests : (Groups.ofParens 0).Nests pattern)
    (before rest : List Char) :
    runRegex .braced .regex (bracedBehind before [] (pattern ++ rest)) =
      runRegex .braced .regex (bracedBehind before pattern rest) := by
  refine Turn.run_along (fun front back => bracedBehind before front (back ++ rest)) ?_
  rintro front c back rfl
  have hnul : c ≠ '\x00' := by
    rintro rfl
    simp at solid
  exact regexTurn_braced hnul (nests.beginning (by simp)) before (back ++ rest)

/-- A pattern that is a regex in front of a rest: there is something in it, it does not begin
with a quote, and a closer of a group that it does not leave open comes next. -/
def EndsRegex (pattern rest : List Char) : Prop :=
  pattern ≠ [] ∧ (∀ c ∈ pattern.head?, isQuote c = false) ∧
    ∃ closer ∈ rest.head?, (Groups.leftOpen pattern).Unopened closer

instance (pattern rest : List Char) : Decidable (EndsRegex pattern rest) :=
  have := Option.decidableForallMem pattern.head? (p := (isQuote · = false))
  have := Option.decidableExistsMem rest.head? (p := (Groups.leftOpen pattern).Unopened)
  inferInstanceAs (Decidable (_ ∧ _ ∧ _))

/-- Reading ends behind the longest beginning that nests. -/
theorem runRegex_longest (longest : LongestNested (pattern ++ rest) pattern)
    (unquoted : ∀ c ∈ pattern.head?, isQuote c = false) (before : List Char) :
    runRegex .braced .regex (bracedBehind before [] (pattern ++ rest)) =
      if EndsRegex pattern rest then
        some (.regex, (bracedBehind before pattern rest).cursor)
      else none := by
  rw [runRegex_nested longest.solid longest.nests]
  simp only [EndsRegex, and_iff_right unquoted]
  cases rest with
  | nil => exact Turn.run_of_done (by simp [regexTurn, bracedBehind])
  | cons c rest =>
      by_cases hnul : c = '\x00'
      · subst hnul
        exact Turn.run_of_done (by simp [regexTurn, bracedBehind, Groups.Unopened])
      · have hclosed := longest.next.resolve_left hnul
        refine Turn.run_of_done ?_
        simp [regexTurn, bracedBehind, hnul, Groups.count_eq_none_iff.mpr hclosed, hclosed]

/-! ## The call -/

/-- What the resolver claims, by the place where the regex begins. -/
theorem counted_braced (blank : ∀ c ∈ space, isSpace c = true)
    (begins : ∀ c ∈ (pattern ++ rest).head?, isSpace c = false)
    (longest : LongestNested (pattern ++ rest) pattern) (before : List Char) :
    (resolveRegex bracedRegexes (.begin (.between before (space ++ (pattern ++ rest))))).counted
        bracedRegexes =
      if EndsRegex pattern rest then
        some (.regex, (bracedBehind (before ++ space) pattern rest).cursor)
      else none := by
  have hfirst : ∀ c ∈ pattern.head?,
      (Place.between (before ++ space) (pattern ++ rest)).lookahead = c := by
    cases pattern with
    | nil => simp
    | cons x pattern => rintro c ⟨⟩; rfl
  rw [resolveRegex_between (by simp [bracedRegexes]) (by simp [bracedRegexes]) blank begins]
  split
  · next hquote =>
    rw [if_neg]
    · rfl
    rintro ⟨hne, hunquoted, -⟩
    obtain ⟨x, hx⟩ := Option.isSome_iff_exists.mp (List.isSome_head?.mpr hne)
    rw [hfirst x hx, hunquoted x hx] at hquote
    cases hquote
  · next hquote =>
    have hunquoted : ∀ c ∈ pattern.head?, isQuote c = false := by
      intro c hc
      rw [← hfirst c hc]
      exact Bool.eq_false_iff.mpr hquote
    have hfresh : freshRegex (.between (before ++ space) (pattern ++ rest))
        (.between (before ++ space) (pattern ++ rest)) =
        bracedBehind (before ++ space) [] (pattern ++ rest) := by
      simp [freshRegex, bracedBehind, bracedText, Groups.ofParens, Place.skip]
    have hread := runRegex_longest longest hunquoted (before ++ space)
    rw [← hfresh] at hread
    have hstyle : runRegex (regexStyle bracedRegexes) (regexKind bracedRegexes) =
        runRegex .braced .regex := rfl
    rw [hstyle, hread]
    split
    · simp [Ruling.ofClaim, Ruling.counted, Kind.isEmittable, bracedRegexes]
    · rfl

/-- A call returns a pattern that is a regex, up to the whitespace that does not stay. -/
theorem sees_braced (blank : ∀ c ∈ space, isSpace c = true)
    (begins : ∀ c ∈ (pattern ++ rest).head?, isSpace c = false)
    (longest : LongestNested (pattern ++ rest) pattern) (ends : EndsRegex pattern rest)
    (s : State) (before : List Char) :
    Sees [.call bracedRegexes] ⟨s, .between before (space ++ (pattern ++ rest))⟩
      [(some (.regex, bracedText pattern),
        (Place.between (before ++ space) (pattern ++ rest)).skip (bracedText pattern).length)]
      ⟨s, (Place.between (before ++ space) (pattern ++ rest)).skip
        (bracedText pattern).length⟩ := by
  have hcounted := counted_braced blank begins longest before
  rw [if_pos ends] at hcounted
  obtain ⟨dropped, hdropped⟩ := bracedText_prefix pattern
  have hstart : Place.between (before ++ space) (pattern ++ rest) =
      .between (before ++ space) (bracedText pattern ++ (dropped ++ rest)) := by
    rw [← List.append_assoc, hdropped]
  have hstop : (Place.between (before ++ space) (pattern ++ rest)).skip
      (bracedText pattern).length =
      .between (before ++ space ++ bracedText pattern) (dropped ++ rest) := by
    rw [hstart, Place.skip_between]
  rw [hstop]
  exact acceptsRegexes_braced.sees hcounted hstart hstop s

/-- Wherever a call for a regex up to the end of an expansion begins, it ignores whitespace and
reads the longest text behind it that nests. This is a regex just in case there is something
in it, it does not begin with a quote and a closer of a group that it does not leave open comes
next; it is returned without whitespace at its end, unless a parenthesis is open there. In all
other cases the call declines. The state stays. -/
theorem braced_regex_extent (s : State) (p : Place) :
    ∃ before space pattern rest, p = .between before (space ++ (pattern ++ rest)) ∧
      (∀ c ∈ space, isSpace c = true) ∧ (∀ c ∈ (pattern ++ rest).head?, isSpace c = false) ∧
      LongestNested (pattern ++ rest) pattern ∧
      (EndsRegex pattern rest →
        let stop := (Place.between (before ++ space) (pattern ++ rest)).skip
          (bracedText pattern).length
        Sees [.call bracedRegexes] ⟨s, p⟩ [(some (.regex, bracedText pattern), stop)]
          ⟨s, stop⟩) ∧
      (¬ EndsRegex pattern rest → Sees [.call bracedRegexes] ⟨s, p⟩ [(none, p)] ⟨s, p⟩) := by
  obtain ⟨before, hp⟩ := p.exists_between
  obtain ⟨space, text, hahead, blank, begins⟩ := exists_run isSpace p.ahead
  obtain ⟨pattern, longest⟩ := exists_longestNested text
  obtain ⟨rest, rfl⟩ := longest.beginning
  rw [hahead] at hp
  subst hp
  refine ⟨before, space, pattern, rest, rfl, blank, begins, longest, fun ends => ?_,
    fun hnone => ?_⟩
  · exact sees_braced blank begins longest ends s before
  · have hcounted := counted_braced blank begins longest before
    rw [if_neg hnone] at hcounted
    exact acceptsRegexes_braced.sees_nothing hcounted s

end ContextLexer.Shell
