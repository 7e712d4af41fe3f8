/-
# Globs that an expansion has split

Behind an expansion a glob goes on, and what it closes there are the parentheses that were left
open in front of the expansion. The scanner remembers how many they are for as long as it takes
to come back to the glob: a piece that ends in front of another expansion remembers the depth
anew, and every other end is meant to forget it. One does not. A bar right behind the beginning
of a piece ends it at the end of a line, whatever is open.

A piece begins with one character that is not counted, and only a few characters may come
behind it. A closing parenthesis is not among them, so of the closers of a split glob just a
single one is read.
-/

import ContextLexer.Proofs.Onward
import ContextLexer.Proofs.Shell.ExtendedGlob

namespace ContextLexer.Shell

open Scanner (Sees)

variable {s : State} {depth later : UInt8} {c : Cursor} {x : Char} {text : List Char}

/-! ## Going on with closers -/

/-- Where parentheses are open, the first closer is part of the glob. -/
theorem readGlob_closer (hdepth : depth ≠ 0) (before text : List Char) :
    readGlob depth (.begin (.between before (')' :: text))) =
      globDash depth ⟨.between (before ++ [')']) text, .between before (')' :: text),
        some (.between before (')' :: text))⟩ := by
  have hcloser : isSpace ')' = false := by decide
  simp [readGlob, Cursor.ignoreWhile, Cursor.begin, hcloser, beginsGlob, globFirst, hdepth]

/-- Whitespace behind the first closer ends the glob. -/
theorem readGlob_closer_space (hdepth : depth ≠ 0) (hspace : isSpace x = true)
    (before rest : List Char) :
    readGlob depth (.begin (.between before (')' :: x :: rest))) =
      claimGlob 0 ⟨.between (before ++ [')']) (x :: rest), .between before (')' :: x :: rest),
        some (.between (before ++ [')']) (x :: rest))⟩ := by
  have hdash : x ≠ '-' := ne_of_test (by decide) hspace
  rw [readGlob_closer hdepth]
  simp [globDash, globCase, globSpace, hdepth, hspace, hdash]

/-- A second closer does not go on with the glob. -/
theorem readGlob_closer_closer (hdepth : depth ≠ 0) (before rest : List Char) :
    readGlob depth (.begin (.between before (')' :: ')' :: rest))) = (depth, none) := by
  have hcloser : isSpace ')' = false := by decide
  rw [readGlob_closer hdepth]
  simp [globDash, globCase, globSpace, globExpansion, globAlternative, continuesGlob, hdepth,
    hcloser]

/-- As many closers as there are open parentheses, with whitespace behind them, are returned as
the rest of the glob if there is one of them, and nothing is remembered then. If there are more,
the call declines, and they stay open. -/
theorem closers_resume (isOpen : s.globDepth ≠ 0) (hspace : isSpace x = true)
    (before rest : List Char) :
    let closers := List.replicate s.globDepth.toNat ')'
    let p := Place.between before (closers ++ x :: rest)
    let stop := Place.between (before ++ closers) (x :: rest)
    (s.globDepth = 1 →
      Sees [.call extendedGlobs] ⟨s, p⟩ [(some (.extendedGlob, closers), stop)]
        ⟨{ s with globDepth := 0 }, stop⟩) ∧
    (s.globDepth ≠ 1 → Sees [.call extendedGlobs] ⟨s, p⟩ [(none, p)] ⟨s, p⟩) := by
  intro closers p stop
  refine ⟨fun hone => ?_, fun hmore => ?_⟩
  · have hclosers : closers = [')'] := by simp [closers, hone]
    have hread := readGlob_closer_space isOpen hspace before rest
    have hscan := scan_extendedGlobs s (.begin (.between before (')' :: x :: rest)))
    rw [hread] at hscan
    simp only [p, stop, hclosers]
    exact .of_yields (.claim hscan rfl rfl)
  · -- The second closer decides, however many there are.
    obtain ⟨fewer, hfewer⟩ : ∃ fewer, s.globDepth.toNat = fewer + 2 := by
      have hzero : s.globDepth.toNat ≠ 0 := fun h => isOpen (UInt8.toNat_inj.mp h)
      have hone : s.globDepth.toNat ≠ 1 := fun h => hmore (UInt8.toNat_inj.mp h)
      exact ⟨s.globDepth.toNat - 2, by omega⟩
    have hclosers : closers = ')' :: ')' :: List.replicate fewer ')' := by
      simp [closers, hfewer, List.replicate_succ]
    have hscan := scan_extendedGlobs s (.begin p)
    simp only [p, hclosers, List.cons_append] at hscan ⊢
    rw [readGlob_closer_closer isOpen] at hscan
    exact .decline hscan

/-- One parenthesis was open, and a line ends behind its closer. -/
theorem closers_resume_single :
    let s : State := { State.initial with globDepth := 1 }
    s.globDepth ≠ 0 ∧ isSpace '\n' = true ∧ s.globDepth = 1 ∧
    Sees [.call extendedGlobs] ⟨s, .between ['x'] (List.replicate 1 ')' ++ '\n' :: [])⟩
      [(some (.extendedGlob, [')']), .between ['x', ')'] ['\n'])]
      ⟨State.initial, .between ['x', ')'] ['\n']⟩ := by
  intro s
  have hopen : s.globDepth ≠ 0 := by decide
  have hspace : isSpace '\n' = true := by decide
  exact ⟨hopen, hspace, rfl, (closers_resume hopen hspace ['x'] []).1 rfl⟩

/-- The two parentheses that are open in front of an expansion are not closed behind it: the
call declines, and both stay open. -/
theorem two_closers_stay_open :
    Sees [.call extendedGlobs, .take 4, .call extendedGlobs]
      ⟨State.initial, .between [] ['@', '(', 'a', '(', '$', '(', 'x', ')', ')', ')', ' ']⟩
      [(some (.extendedGlob, ['@', '(', 'a', '(']),
          .between ['@', '(', 'a', '('] ['$', '(', 'x', ')', ')', ')', ' ']),
        (none, .between ['@', '(', 'a', '(', '$', '(', 'x', ')'] [')', ')', ' '])]
      ⟨{ State.initial with globDepth := 2 },
        .between ['@', '(', 'a', '(', '$', '(', 'x', ')'] [')', ')', ' ']⟩ := rfl

/-! ## Where the depth is forgotten -/

/-- An expansion comes next that splits a glob. -/
def SplitNext (text : List Char) : Prop := ∃ c ∈ ['{', '('], ['$', c] <+: text

/-- A bar comes next, with a backslash or the end of the line behind it. -/
def BarNext (text : List Char) : Prop := ∃ c ∈ ['\\', '\r', '\n'], ['|', c] <+: text

/-- How a piece of a glob may end in front of a text, by the depth that is remembered before
and after. -/
inductive GlobEnd (depth : UInt8) : UInt8 → List Char → Prop
  /-- An expansion splits the glob. -/
  | split {later : UInt8} {text : List Char} (next : SplitNext text) : GlobEnd depth later text
  /-- A bar ends the piece, and the depth is kept. -/
  | bar {text : List Char} (next : BarNext text) : GlobEnd depth depth text
  /-- The piece is the last one of the glob, and the depth is forgotten. -/
  | final {text : List Char} (unbarred : ¬ BarNext text) : GlobEnd depth 0 text

/-- Reading claims only pieces that end in one of these ways. -/
def GlobResult.Settled (depth : UInt8) (result : GlobResult) : Prop :=
  ∀ found ∈ result.2, GlobEnd depth result.1 found.2.stop.ahead

theorem settled_none (depth later : UInt8) : GlobResult.Settled depth (later, none) := by
  rintro _ ⟨⟩

theorem settled_claim (h : GlobEnd depth later c.stop.ahead) :
    (claimGlob later c).Settled depth := by
  rintro _ ⟨⟩
  exact h

theorem not_barNext_of_lookahead {p : Place} (h : p.lookahead ≠ '|') : ¬ BarNext p.ahead := by
  rintro ⟨c, -, rest, hrest⟩
  refine h ?_
  rw [Place.lookahead, ← hrest]
  rfl

theorem SplitNext.not_barNext (h : SplitNext text) : ¬ BarNext text := by
  rintro ⟨bar, -, rest, rfl⟩
  obtain ⟨c, -, more, hmore⟩ := h
  cases hmore

/-- A mark in front of an expansion splits the glob there. -/
theorem splitNext_of_sees (hdollar : c.lookahead = '$')
    (hsplits : splitsGlob c.consume.lookahead = true) : SplitNext c.place.ahead := by
  have hmem : c.consume.lookahead ∈ ['{', '('] := by
    simpa [splitsGlob] using hsplits
  refine ⟨_, hmem, Cursor.pair_prefix hdollar rfl (by decide) ?_⟩
  rintro hnul
  rw [hnul] at hmem
  exact absurd hmem (by decide)

/-- Where a group is read, the piece ends at the cursor, or a character comes next that goes on
with it. -/
def Glob.Poised (now : Glob) : Prop :=
  now.cursor.mark = some now.cursor.place ∨ continuesGlob now.cursor.lookahead = true

/-- No bar comes next at the end of a piece that an unopened closer ends. -/
theorem Glob.Poised.final {now : Glob} (poised : now.Poised)
    (hclosed : now.groups.Unopened now.cursor.lookahead) :
    GlobEnd depth 0 now.cursor.stop.ahead := by
  refine .final ?_
  have hcloser : now.cursor.lookahead ∈ [')', ']', '}'] := by
    rcases hclosed with ⟨h, -⟩ | ⟨h, -⟩ | ⟨h, -⟩ <;> simp [h]
  rcases poised with hmark | hcontinues
  · rw [Cursor.stop, hmark, Option.getD_some]
    refine not_barNext_of_lookahead fun hbar => ?_
    rw [Cursor.lookahead, hbar] at hcloser
    exact absurd hcloser (by decide)
  · simp only [List.mem_cons, List.not_mem_nil, or_false] at hcloser
    rcases hcloser with h | h | h <;> rw [h] at hcontinues <;> exact absurd hcontinues (by decide)

/-- Nor does one come next at whitespace or a double quote. -/
theorem final_of_ends (h : isSpace c.lookahead = true ∨ c.sees '\"' = true) :
    GlobEnd depth 0 c.markEnd.stop.ahead := by
  refine .final (not_barNext_of_lookahead fun hbar => ?_)
  have hlook : c.lookahead = '|' := hbar
  rw [Cursor.sees, hlook] at h
  exact absurd h (by decide)

theorem globTurn_settled (depth : UInt8) (now : Glob) (poised : now.Poised) :
    (globTurn depth now).LeadsTo Glob.Poised (GlobResult.Settled depth) := by
  rw [globTurn]
  dsimp only
  split
  · exact settled_none depth depth
  split
  · next hcount => exact settled_claim (poised.final (Groups.count_eq_none_iff.mp hcount))
  by_cases hdollar : now.cursor.lookahead = '$'
  · have hspace : isSpace '$' = false := by decide
    simp only [hdollar, hspace, if_true, true_and, Bool.false_eq_true, false_or]
    split
    · next hsplits => exact settled_claim (.split (splitNext_of_sees hdollar hsplits))
    split
    · next hquote => exact settled_claim (final_of_ends (.inr hquote))
    · exact .inl rfl
  · simp only [hdollar, if_false, false_and]
    split
    · next hends => exact settled_claim (final_of_ends hends)
    · exact .inl rfl

theorem settled_readGroup (depth : UInt8) (h : continuesGlob c.lookahead = true) :
    (readGroup depth c).Settled depth :=
  Turn.run_of_leadsTo Glob.Poised (globTurn_settled depth) (.inr h)

/-- A bar at the end of a line is the one end that keeps the depth. -/
theorem settled_globAlternative (depth : UInt8) (c : Cursor) :
    (globAlternative depth c).Settled depth := by
  rw [globAlternative]
  by_cases hbar : c.lookahead = '|'
  · have hsees : c.sees '|' = true := decide_eq_true hbar
    simp only [hsees, if_true, true_and]
    split
    · next hnext =>
      have hsome : c.markEnd.consume.lookahead ≠ '\x00' := by
        intro hnul
        rw [hnul] at hnext
        exact absurd hnext (by decide)
      exact settled_claim (.bar ⟨_, hnext, Cursor.pair_prefix hbar rfl (by decide) hsome⟩)
    split
    · next hcontinues => exact settled_readGroup depth hcontinues
    · exact settled_none depth depth
  · have hsees : c.sees '|' = false := decide_eq_false hbar
    simp only [hsees, Bool.false_eq_true, if_false, false_and]
    split
    · next hcontinues => exact settled_readGroup depth hcontinues
    · exact settled_none depth depth

theorem settled_globExpansion (depth : UInt8) (c : Cursor) :
    (globExpansion depth c).Settled depth := by
  rw [globExpansion]
  by_cases hdollar : c.lookahead = '$'
  · have hsees : c.sees '$' = true := decide_eq_true hdollar
    simp only [hsees, if_true, true_and]
    split
    · next hsplits => exact settled_claim (.split (splitNext_of_sees hdollar hsplits))
    · exact settled_globAlternative depth _
  · have hsees : c.sees '$' = false := decide_eq_false hdollar
    simp only [hsees, Bool.false_eq_true, if_false, false_and]
    exact settled_globAlternative depth c

theorem settled_globSpace (depth : UInt8) (c : Cursor) : (globSpace depth c).Settled depth := by
  rw [globSpace]
  split
  · next hspace => exact settled_claim (final_of_ends (.inl hspace))
  · exact settled_globExpansion depth c

theorem settled_globCase (depth : UInt8) (c : Cursor) : (globCase depth c).Settled depth := by
  rw [globCase]
  split
  · next hcase =>
    obtain ⟨hcloser, rfl⟩ := hcase
    dsimp only
    split
    · refine settled_claim (.final (not_barNext_of_lookahead fun hbar => ?_))
      have hlook : c.lookahead = '|' := hbar
      rw [Cursor.sees, hlook] at hcloser
      exact absurd hcloser (by decide)
    · exact settled_globSpace 0 _
  · exact settled_globSpace depth c

theorem settled_globDash (depth : UInt8) (c : Cursor) : (globDash depth c).Settled depth := by
  rw [globDash]
  split
  · dsimp only
    split
    · exact settled_none depth depth
    · exact settled_globCase depth _
  · exact settled_globCase depth c

theorem settled_globFirst (depth : UInt8) (c : Cursor) : (globFirst depth c).Settled depth := by
  rw [globFirst]
  split
  · dsimp only
    split
    · exact settled_none depth depth
    · exact settled_globDash depth _
  · exact settled_globDash depth _

theorem settled_readGlob (depth : UInt8) (c : Cursor) : (readGlob depth c).Settled depth := by
  rw [readGlob]
  dsimp only
  split
  · exact settled_none depth 0
  split
  · split
    · exact settled_globFirst depth _
    · exact settled_none depth depth
  · exact settled_globFirst depth _

/-- A piece of a glob ends in one of the three ways. -/
theorem globEnd_call {s : State} {p : Place} {token : Token Kind}
    (h : (Scanner.call s extendedGlobs p).token = some token) :
    GlobEnd s.globDepth (Scanner.call s extendedGlobs p).state.globDepth token.stop.ahead := by
  obtain ⟨c, hclaim, htoken⟩ := Scanner.exists_claim_of_token h
  have hscan : Scanner.scan s extendedGlobs (.begin p) = _ := scan_extendedGlobs s (.begin p)
  have hstate : (Scanner.call s extendedGlobs p).state.globDepth =
      (readGlob s.globDepth (.begin p)).1 := by
    rw [Scanner.call, hscan]
  rw [hscan] at hclaim
  have hread : (readGlob s.globDepth (.begin p)).2 = some (token.kind, c) :=
    Ruling.eq_of_counted hclaim
  rw [hstate, ← htoken]
  exact settled_readGlob s.globDepth (.begin p) _ hread

/-- A piece of a glob that does not end in front of an expansion is the last one, and the depth is
forgotten, except that a bar with a backslash or the end of the line behind it keeps what was
remembered. -/
theorem glob_end_forgets_iff (s : State) (p : Place) (token : Token Kind)
    (h : (Scanner.call s extendedGlobs p).token = some token) :
    (SplitNext token.stop.ahead ∨ (Scanner.call s extendedGlobs p).state.globDepth = 0) ↔
      (BarNext token.stop.ahead → s.globDepth = 0) := by
  have hend := globEnd_call h
  generalize (Scanner.call s extendedGlobs p).state.globDepth = later at hend
  generalize token.stop.ahead = text at hend
  generalize s.globDepth = depth at hend
  cases hend with
  | split next =>
      exact ⟨fun _ hbar => absurd hbar next.not_barNext, fun _ => .inl next⟩
  | bar next =>
      refine ⟨fun hforgets _ => ?_, fun hzero => .inr (hzero next)⟩
      exact hforgets.resolve_left fun hsplit => hsplit.not_barNext next
  | final unbarred => exact ⟨fun _ hbar => absurd hbar unbarred, fun _ => .inr rfl⟩

/-- Where three parentheses are open, a bar at the end of a line ends a piece. -/
theorem glob_end_forgets_iff_bar :
    let s : State := { State.initial with globDepth := 3 }
    let p : Place := .between ['x'] [' ', '?', '-', 'a', '|', '\n']
    let token : Token Kind :=
      ⟨.extendedGlob, .between ['x', ' '] ['?', '-', 'a', '|', '\n'],
        .between ['x', ' ', '?', '-', 'a'] ['|', '\n']⟩
    (Scanner.call s extendedGlobs p).token = some token ∧
      ((SplitNext token.stop.ahead ∨ (Scanner.call s extendedGlobs p).state.globDepth = 0) ↔
        (BarNext token.stop.ahead → s.globDepth = 0)) :=
  ⟨rfl, glob_end_forgets_iff _ _ _ rfl⟩

/-- In front of an expansion a parenthesis is open, and behind it a piece of the glob ends at a
bar. The parenthesis is remembered from then on. -/
theorem bar_keeps_depth :
    Sees [.call extendedGlobs, .take 4, .call extendedGlobs]
      ⟨State.initial, .between [] ['@', '(', 'x', '$', '(', 'y', ')', '*', '|', '\n']⟩
      [(some (.extendedGlob, ['@', '(', 'x']),
          .between ['@', '(', 'x'] ['$', '(', 'y', ')', '*', '|', '\n']),
        (some (.extendedGlob, ['*']),
          .between ['@', '(', 'x', '$', '(', 'y', ')', '*'] ['|', '\n'])]
      ⟨{ State.initial with globDepth := 1 },
        .between ['@', '(', 'x', '$', '(', 'y', ')', '*'] ['|', '\n']⟩ := rfl

end ContextLexer.Shell
