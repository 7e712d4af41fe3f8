/-
# Extended globs

An operator in front of a group makes an extended glob. It is read character by character for
as long as it closes only what it has opened, and the end of the token moves along. Whitespace,
a double quote and a closer that has nothing to close end the glob. An expansion splits it: what
is in front of the expansion is returned, and the scanner remembers how many parentheses are
open there, though no more than a byte can tell.
-/

import ContextLexer.Proofs.Sessions
import ContextLexer.Proofs.Shell.Pattern
import ContextLexer.Proofs.Shell.Walk
import ContextLexer.Proofs.Unicode.WhiteSpace

namespace ContextLexer.Shell

open Scanner (Sees)

/-- The host accepts an extended glob, and nothing else. -/
def extendedGlobs : Accepted := .ofList [.extendedGlob]

/-- The characters that make a glob of the group behind them. -/
def globOperators : List Char := ['?', '*', '+', '@', '!']

/-- A character that does nothing in a glob but open and close groups. -/
def InGlob (c : Char) : Prop := isSpace c = false ∧ c ∉ ['\x00', '\"', '$', '\\']

instance (c : Char) : Decidable (InGlob c) := inferInstanceAs (Decidable (_ ∧ _))

/-- A group of a glob, which need not be closed. -/
structure GlobGroup (group : List Char) : Prop where
  begins : group.head? = some '('
  plain : ∀ c ∈ group, InGlob c
  /-- Only what was opened is closed. -/
  nests : (Groups.ofParens 0).Nests group

/-- A character that ends a glob. -/
def EndsGlob (group : List Char) (c : Char) : Prop :=
  isSpace c = true ∨ c = '\"' ∨ (Groups.leftOpen group).Unopened c

instance (group : List Char) (c : Char) : Decidable (EndsGlob group c) :=
  inferInstanceAs (Decidable (_ ∨ _ ∨ _))

variable {before space group rest : List Char} {operator c : Char} {start : Place} {s : State}

/-! ## Reading -/

/-- The rest of a glob is read from any point of its group. -/
def runGroup (now : Glob) : GlobResult :=
  Turn.run (globTurn 0) (fun now => now.cursor.remaining) (globTurn_shrinks 0) now

/-- A glob behind the part of its group that has been read. The token ends there, if there is
such a part. -/
def groupBehind (start : Place) (before group rest : List Char) : Glob where
  cursor := ⟨.between (before ++ group) rest, start,
    if group = [] then some start else some (.between (before ++ group) rest)⟩
  groups := .leftOpen group

/-- A turn reads one more character of the group, and the token ends behind it. -/
theorem globTurn_inside (plain : InGlob c) (nests : (Groups.ofParens 0).Nests (group ++ [c]))
    (start : Place) (before rest : List Char) :
    globTurn 0 (groupBehind start before group (c :: rest)) =
      .again (groupBehind start before (group ++ [c]) rest) := by
  have hcount := Groups.count_leftOpen nests
  obtain ⟨hspace, hc⟩ := plain
  simp only [List.mem_cons, List.not_mem_nil, or_false, not_or] at hc
  simp [globTurn, groupBehind, skipGlobCharacter, hcount, hspace, hc]

theorem runGroup_inside (plain : ∀ c ∈ group, InGlob c) (nests : (Groups.ofParens 0).Nests group)
    (start : Place) (before rest : List Char) :
    runGroup (groupBehind start before [] (group ++ rest)) =
      runGroup (groupBehind start before group rest) := by
  refine Turn.run_along (fun front back => groupBehind start before front (back ++ rest)) ?_
  rintro front c back rfl
  exact globTurn_inside (plain c (by simp)) (nests.beginning (by simp)) start before (back ++ rest)

/-- Whitespace, a double quote or an unopened closer ends the glob. -/
theorem runGroup_end (nonempty : group ≠ []) (ends : EndsGlob group c) (start : Place)
    (before rest : List Char) :
    runGroup (groupBehind start before group (c :: rest)) =
      claimGlob 0 (groupBehind start before group (c :: rest)).cursor := by
  refine Turn.run_of_done ?_
  rcases ends with hspace | rfl | hclosed
  · have hne {x : Char} (hx : isSpace x = false) : c ≠ x := ne_of_test hx hspace
    have hnul := hne (x := '\x00') (by decide)
    have hdollar := hne (x := '$') (by decide)
    simp [globTurn, groupBehind, Groups.count_of_isSpace hspace, hspace, hnul, hdollar, nonempty]
  · simp [globTurn, groupBehind, Groups.count, nonempty]
  · have hnul : c ≠ '\x00' := by
      rintro rfl
      simp [Groups.Unopened] at hclosed
    simp [globTurn, groupBehind, Groups.count_eq_none_iff.mpr hclosed, hnul]

/-- An expansion splits the glob in front of it. -/
theorem runGroup_split (nonempty : group ≠ []) (splits : splitsGlob c = true) (start : Place)
    (before rest : List Char) :
    runGroup (groupBehind start before group ('$' :: c :: rest)) =
      claimGlob (.ofNat (min (Groups.leftOpen group).parens 255))
        (groupBehind start before group ('$' :: c :: rest)).cursor.consume := by
  refine Turn.run_of_done ?_
  simp [globTurn, groupBehind, Groups.count, splits, nonempty]

/-- Nothing is claimed at the end of the text. -/
theorem runGroup_cut_off (hnul : ∀ c ∈ rest.head?, c = '\x00') (start : Place)
    (before : List Char) : runGroup (groupBehind start before group rest) = (0, none) := by
  have hnext : (Place.between (before ++ group) rest).lookahead = '\x00' :=
    Place.lookahead_between (· = '\x00') rfl hnul
  exact Turn.run_of_done (by simp [globTurn, groupBehind, Cursor.lookahead, hnext])

/-- Behind an operator and in front of a parenthesis the group is read. -/
theorem readGlob_operator (hoperator : operator ∈ globOperators)
    (blank : ∀ c ∈ space, isSpace c = true) (before text : List Char) :
    readGlob 0 (.begin (.between before (space ++ operator :: '(' :: text))) =
      runGroup (groupBehind (.between (before ++ space) (operator :: '(' :: text))
        (before ++ space ++ [operator]) [] ('(' :: text)) := by
  obtain ⟨hspace, hbegins, hback, hcloser⟩ : isSpace operator = false ∧
      beginsGlob operator = true ∧ operator ≠ '\\' ∧ operator ≠ ')' := by
    simp only [globOperators, List.mem_cons, List.not_mem_nil, or_false] at hoperator
    rcases hoperator with rfl | rfl | rfl | rfl | rfl <;> decide
  have hstops : ∀ c ∈ (operator :: '(' :: text).head?, isSpace c = false := by
    rintro _ ⟨⟩
    exact hspace
  have hopener : isSpace '(' = false := by decide
  rw [readGlob, Cursor.ignoreWhile_begin, Place.skipWhile_between blank hstops]
  simp [hbegins, hback, hcloser, hopener, Cursor.begin, globFirst, globDash, globCase, globSpace,
    globExpansion, globAlternative, continuesGlob, readGroup, runGroup, groupBehind]

/-- A call for globs remembers the depth at which reading ends, and comes to what is read. -/
theorem scan_extendedGlobs (s : State) (c : Cursor) :
    s.scan extendedGlobs c =
      let result := readGlob s.globDepth c
      ⟨{ s with globDepth := result.1 }, (Ruling.ofClaim result.2).counted extendedGlobs⟩ := by
  have hasked : Resolver.extendedGlob.asked s extendedGlobs := by
    simp [Resolver.asked, extendedGlobs, isRecovering]
  rw [State.scan_of_gate hasked (by simp [extendedGlobs, Resolver.gate])]
  rfl

/-- A call comes to what is made of the group. -/
theorem scan_extendedGlob (fresh : s.globDepth = 0) (hoperator : operator ∈ globOperators)
    (hgroup : GlobGroup group) (blank : ∀ c ∈ space, isSpace c = true)
    (before rest : List Char) :
    s.scan extendedGlobs (.begin (.between before (space ++ operator :: (group ++ rest)))) =
      let result := runGroup (groupBehind (.between (before ++ space) (operator :: (group ++ rest)))
        (before ++ space ++ [operator]) group rest)
      ⟨{ s with globDepth := result.1 }, (Ruling.ofClaim result.2).counted extendedGlobs⟩ := by
  obtain ⟨text, rfl⟩ : ∃ text, group = '(' :: text := List.head?_eq_some_iff.mp hgroup.begins
  have hread := readGlob_operator hoperator blank before (text ++ rest)
  rw [← List.cons_append, runGroup_inside hgroup.plain hgroup.nests] at hread
  rw [scan_extendedGlobs, fresh, hread]

/-! ## The call -/

theorem State.withDepth_self (fresh : s.globDepth = 0) : { s with globDepth := 0 } = s := by
  cases s
  simpa using fresh.symm

section

variable (fresh : s.globDepth = 0) (hoperator : operator ∈ globOperators)
  (hgroup : GlobGroup group) (blank : ∀ c ∈ space, isSpace c = true)

include fresh hoperator hgroup blank

/-- A call returns the operator and the group where the group is claimed. -/
theorem sees_glob {depth : UInt8} {c : Cursor} (before rest : List Char)
    (hread : runGroup (groupBehind (.between (before ++ space) (operator :: (group ++ rest)))
      (before ++ space ++ [operator]) group rest) = claimGlob depth c)
    (hstart : c.start = .between (before ++ space) (operator :: group ++ rest))
    (hstop : c.stop = .between (before ++ space ++ operator :: group) rest) :
    Sees [.call extendedGlobs] ⟨s, .between before (space ++ (operator :: group ++ rest))⟩
      [(some (.extendedGlob, operator :: group),
        .between (before ++ space ++ operator :: group) rest)]
      ⟨{ s with globDepth := depth }, .between (before ++ space ++ operator :: group) rest⟩ := by
  have hscan := scan_extendedGlob fresh hoperator hgroup blank before rest
  rw [hread] at hscan
  exact .of_yields (.claim hscan hstart hstop)

/-- An operator and a group behind it are returned in front of whitespace, a double quote or a
closer that has nothing to close, and nothing is remembered. In front of an expansion they are
returned as well, and the scanner remembers how many parentheses the group leaves open, as far
as a byte can tell. At the end of the text the call declines. The heredocs stay. -/
theorem extended_glob_extent (before rest : List Char) :
    let p := Place.between before (space ++ (operator :: group ++ rest))
    let stop := Place.between (before ++ space ++ operator :: group) rest
    ((∃ c ∈ rest.head?, EndsGlob group c) →
      Sees [.call extendedGlobs] ⟨s, p⟩ [(some (.extendedGlob, operator :: group), stop)]
        ⟨s, stop⟩) ∧
    ((∃ c ∈ ['{', '('], ['$', c] <+: rest) →
      Sees [.call extendedGlobs] ⟨s, p⟩ [(some (.extendedGlob, operator :: group), stop)]
        ⟨{ s with globDepth := .ofNat (min (Groups.leftOpen group).parens 255) }, stop⟩) ∧
    ((∀ c ∈ rest.head?, c = '\x00') →
      Sees [.call extendedGlobs] ⟨s, p⟩ [(none, p)] ⟨s, p⟩) := by
  intro p stop
  have hnonempty : group ≠ [] := by
    rintro rfl
    cases hgroup.begins
  refine ⟨?_, ?_, fun hnul => ?_⟩
  · rintro ⟨c, hc, ends⟩
    obtain ⟨rest, rfl⟩ := List.head?_eq_some_iff.mp hc
    have hread := runGroup_end hnonempty ends
      (.between (before ++ space) (operator :: (group ++ c :: rest)))
      (before ++ space ++ [operator]) rest
    have hsees := sees_glob fresh hoperator hgroup blank before (c :: rest) hread rfl
      (by simp [groupBehind, Cursor.stop, hnonempty])
    rwa [State.withDepth_self fresh] at hsees
  · rintro ⟨c, hc, more, rfl⟩
    have hsplits : splitsGlob c = true := by
      simp only [List.mem_cons, List.not_mem_nil, or_false] at hc
      rcases hc with rfl | rfl <;> rfl
    have hread := runGroup_split hnonempty hsplits
      (.between (before ++ space) (operator :: (group ++ '$' :: c :: more)))
      (before ++ space ++ [operator]) more
    exact sees_glob fresh hoperator hgroup blank before ('$' :: c :: more) hread rfl
      (by simp [groupBehind, Cursor.stop, Cursor.consume, hnonempty])
  · have hscan := scan_extendedGlob fresh hoperator hgroup blank before rest
    rw [runGroup_cut_off hnul] at hscan
    have hdeclined : Sees [.call extendedGlobs] ⟨s, p⟩ [(none, p)]
        ⟨{ s with globDepth := 0 }, p⟩ := .decline hscan
    rwa [State.withDepth_self fresh] at hdeclined

end

/-- A group in which parentheses and braces are open, in front of an expansion. -/
theorem extended_glob_extent_split :
    let group := ['(', 'a', '|', '(', '{', '[', ']', ')', '(']
    State.initial.globDepth = 0 ∧ '@' ∈ globOperators ∧ GlobGroup group ∧
    (∀ c ∈ [' ', '\t'], isSpace c = true) ∧
    Sees [.call extendedGlobs]
      ⟨State.initial, .between [] ([' ', '\t'] ++ ('@' :: group ++ ['$', '{', 'x']))⟩
      [(some (.extendedGlob, '@' :: group),
        .between ([] ++ [' ', '\t'] ++ '@' :: group) ['$', '{', 'x'])]
      ⟨{ State.initial with globDepth := 2 },
        .between ([] ++ [' ', '\t'] ++ '@' :: group) ['$', '{', 'x']⟩ := by
  intro group
  have hplain : ∀ c ∈ group, InGlob c := by
    simp only [group, List.forall_mem_cons, List.not_mem_nil, false_implies, implies_true, and_true]
    decide
  have hgroup : GlobGroup group := ⟨rfl, hplain, by decide⟩
  have hblank : ∀ c ∈ [' ', '\t'], isSpace c = true := by
    simp only [List.forall_mem_cons, List.not_mem_nil, false_implies, implies_true, and_true]
    decide
  have hfresh : State.initial.globDepth = 0 := rfl
  have hoperator : '@' ∈ globOperators := by decide
  have hextent := extended_glob_extent hfresh hoperator hgroup hblank [] ['$', '{', 'x']
  exact ⟨hfresh, hoperator, hgroup, hblank, hextent.2.1 ⟨'{', by decide, by decide⟩⟩

end ContextLexer.Shell
