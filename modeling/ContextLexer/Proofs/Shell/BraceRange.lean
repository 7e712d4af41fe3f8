/-
# Brace ranges

Only the opening brace of a range is claimed, but the resolver looks at the range up to its
closing brace. It never goes back on the way, and need not: no digit is a period and no period
is a brace, so there is one way in which a text can be read as a range. What is claimed is
therefore just what the shape of a range says.
-/

import ContextLexer.Proofs.Sessions
import ContextLexer.Proofs.Shell.Walk

namespace ContextLexer.Shell

open Scanner (Sees)

/-- The host accepts the brace of a range, and nothing else. -/
def braceStarts : Accepted := .ofList [.braceStart]

/-- A range comes next: two bounds in braces, with two periods between them. A bound consists of
digits, and may be missing. -/
inductive RangeNext : List Char → Prop
  | intro {low high : List Char} (low_numeric : ∀ c ∈ low, c.isDigit = true)
      (high_numeric : ∀ c ∈ high, c.isDigit = true) (rest : List Char) :
      RangeNext ('{' :: (low ++ (['.', '.'] ++ (high ++ '}' :: rest))))

variable {p : Place} {c : Cursor}

/-! ## The resolver -/

/-- The brace of a range is claimed, with nothing of the whitespace in front of it. -/
theorem resolveBraceRange_of_rangeNext (h : RangeNext (p.skipWhile isSpace).ahead) :
    let first := p.skipWhile isSpace
    ∃ c, resolveBraceRange (.begin p) = .claim .braceStart c ∧ c.stop = first.next ∧
      c.start.Leads ['{'] first.next := by
  obtain ⟨before, hfirst⟩ := (p.skipWhile isSpace).exists_between
  generalize (p.skipWhile isSpace).ahead = ahead at h hfirst
  cases h with
  | @intro low high low_numeric high_numeric rest =>
      have hperiod : ∀ c ∈ (['.', '.'] ++ (high ++ '}' :: rest)).head?, c.isDigit = false := by
        rintro _ ⟨⟩
        decide
      have hbrace : ∀ c ∈ ('}' :: rest).head?, c.isDigit = false := by
        rintro _ ⟨⟩
        decide
      rw [resolveBraceRange, Cursor.ignoreWhile_begin, hfirst]
      simp only [Cursor.begin, Cursor.sees_mk, Place.lookahead_between_cons, decide_true,
        Bool.not_true, Bool.false_eq_true, if_false, Cursor.consume_mk, Cursor.markEnd_mk,
        Place.next_between_cons, Cursor.consumeWhile_between low_numeric hperiod,
        Cursor.consumeWord_between, Cursor.consumeWhile_between high_numeric hbrace,
        Ruling.claimIf, if_true]
      exact ⟨_, rfl, rfl, ⟨before, _, rfl, by simp⟩⟩

/-- What has been claimed is the brace of a range. -/
theorem rangeNext_of_resolveBraceRange {kind : Kind} {d : Cursor}
    (claims : resolveBraceRange c = .claim kind d) :
    RangeNext (c.ignoreWhile isSpace).place.ahead := by
  rw [resolveBraceRange] at claims
  generalize c.ignoreWhile isSpace = first at claims
  dsimp only at claims
  split at claims
  · cases claims
  next hopener =>
  split at claims
  case h_2 => cases claims
  next after hperiods =>
  have hcloser := (Ruling.claimIf_eq_claim.mp claims).1
  -- Every reader has consumed what it was looking for, so the texts make up what is ahead.
  have hopener : first.sees '{' = true := by simpa using hopener
  have hlast := Cursor.atEnd_of_sees hcloser (by decide)
  have hbrace := Cursor.Consumes.of_sees hopener (Cursor.atEnd_of_sees hopener (by decide))
  have hlow := Cursor.Consumes.consumeWhile Char.isDigit first.consume.markEnd
  have hhigh := Cursor.Consumes.consumeWhile Char.isDigit after
  have hword := Cursor.Consumes.consumeWord hperiods (hhigh.leads.atEnd_eq_false hlast)
  have hclosing := Cursor.Consumes.of_sees hcloser hlast
  have hrange := (((hbrace.leads.trans hlow.leads).trans hword.leads).trans hhigh.leads).trans
    hclosing.leads
  rw [hrange.ahead_eq]
  simpa using RangeNext.intro (List.all_eq_true.mp List.all_takeWhile)
    (List.all_eq_true.mp List.all_takeWhile) _

/-! ## The call -/

/-- A call for ranges keeps the state, and comes to what the resolver makes of the input. -/
theorem scan_braceStarts (s : State) (c : Cursor) :
    s.scan braceStarts c = ⟨s, (resolveBraceRange c).counted braceStarts⟩ := by
  have hasked : Resolver.braceRange.asked s braceStarts :=
    ⟨by simp [braceStarts], by simp [isRecovering, braceStarts]⟩
  rw [State.scan_of_gate hasked (by simp [braceStarts, Resolver.gate])]
  rfl

/-- The opening brace is returned, and the host is left behind it, just in case a range comes
behind the whitespace at the place of the call. The state is kept. -/
theorem brace_range_exact (s : State) (p : Place) :
    let first := p.skipWhile isSpace
    (RangeNext first.ahead →
      Sees [.call braceStarts] ⟨s, p⟩ [(some (.braceStart, ['{']), first.next)]
        ⟨s, first.next⟩) ∧
    (¬ RangeNext first.ahead → Sees [.call braceStarts] ⟨s, p⟩ [(none, p)] ⟨s, p⟩) := by
  intro first
  have hscan := scan_braceStarts s (.begin p)
  refine ⟨fun hrange => ?_, fun hnone => ?_⟩
  · obtain ⟨c, hclaim, hstop, hbrace⟩ := resolveBraceRange_of_rangeNext hrange
    rw [hclaim, Ruling.counted, if_pos (by decide)] at hscan
    exact .claim hscan hstop hbrace
  · refine .decline (hscan.trans ?_)
    cases hruling : resolveBraceRange (.begin p) with
    | claim kind c =>
        have hrange := rangeNext_of_resolveBraceRange hruling
        rw [Cursor.ignoreWhile_begin] at hrange
        exact absurd hrange hnone
    | decline | pass | handOver => rfl

end ContextLexer.Shell
