/-
# Raw heredocs

In a raw heredoc a dollar sign is text. A scan of its body never marks the heredoc as
started, so it never returns a part that an expansion follows. Whether a heredoc is raw is
looked up at dollar signs only. Two heredocs that differ in nothing else are therefore
scanned alike, turn by turn, in a text without dollar signs: between the turns the two scans
stand at the same place, and their heredocs still differ in nothing else.
-/

import ContextLexer.Proofs.Shell.Change
import ContextLexer.Proofs.Shell.Heredoc.Calls

namespace ContextLexer.Shell

/-! ## Heredocs that differ in their mode -/

/-- Two heredocs differ at most in whether they are raw. -/
def Heredoc.Alike (first second : Heredoc) : Prop := second = { first with raw := second.raw }

/-- Two scans stand at the same place, and their heredocs differ at most in their mode. -/
structure Body.Alike (first second : Body) : Prop where
  heredoc : first.heredoc.Alike second.heredoc
  cursor_eq : second.cursor = first.cursor
  advanced_eq : second.advanced = first.advanced

/-- Two scans find the same, and leave heredocs that differ at most in their mode. -/
structure SameFinding (first second : BodyResult) : Prop where
  heredoc : first.1.Alike second.1
  finding_eq : second.2 = first.2

variable {part : BodyPart} {h k : Heredoc} {now other : Body} {c : Cursor} {kind : Kind}

namespace Heredoc.Alike

theorem refl (h : Heredoc) : h.Alike h := rfl

theorem raw_changed (h : Heredoc) (first second : Bool) :
    Heredoc.Alike { h with raw := first } { h with raw := second } := rfl

theorem started_eq (alike : h.Alike k) : k.started = h.started := by rw [alike]

theorem indented_eq (alike : h.Alike k) : k.indented = h.indented := by rw [alike]

theorem delimiter_eq (alike : h.Alike k) : k.delimiter = h.delimiter := by rw [alike]

end Heredoc.Alike

/-! ## Turns away from dollar signs -/

theorem afterFeed_agree (alike : h.Alike k) (part : BodyPart) (found : Bool × Cursor) :
    (afterFeed h part found).Agree Body.Alike SameFinding (afterFeed k part found) := by
  obtain ⟨met, c⟩ := found
  cases met with
  | true => exact ⟨alike, by rw [alike.started_eq]⟩
  | false => exact ⟨alike, rfl, rfl⟩

theorem afterStart_agree (alike : h.Alike k) (kind : Kind) (found : Bool × Cursor) :
    (afterStart h kind found).Agree Body.Alike SameFinding (afterStart k kind found) := by
  obtain ⟨met, c⟩ := found
  cases met with
  | true => exact ⟨alike, rfl⟩
  | false => exact ⟨alike, rfl, rfl⟩

theorem lineFeedTurn_agree (alike : now.Alike other) :
    (lineFeedTurn part now).Agree Body.Alike SameFinding (lineFeedTurn part other) := by
  rw [lineFeedTurn_eq rfl, lineFeedTurn_eq rfl, alike.cursor_eq, alike.advanced_eq,
    alike.heredoc.indented_eq, alike.heredoc.delimiter_eq]
  exact afterFeed_agree alike.heredoc part _

theorem textTurn_agree (alike : now.Alike other) :
    (textTurn part now).Agree Body.Alike SameFinding (textTurn part other) := by
  by_cases hstart : now.cursor.place.atLineStart = true
  · have hother : other.cursor.place.atLineStart = true := by rwa [alike.cursor_eq]
    rw [textTurn_at_start hstart, textTurn_at_start hother, alike.cursor_eq, alike.advanced_eq,
      alike.heredoc.delimiter_eq]
    cases part <;> exact afterStart_agree alike.heredoc _ _
  · have hother : ¬ other.cursor.place.atLineStart = true := by rwa [alike.cursor_eq]
    rw [textTurn, if_neg hstart, textTurn, if_neg hother]
    exact ⟨alike.heredoc, by rw [alike.cursor_eq], rfl⟩

/-- Away from dollar signs the mode of a heredoc makes no difference to a turn. -/
theorem bodyTurn_agree (alike : now.Alike other) (hdollar : now.cursor.lookahead ≠ '$') :
    (bodyTurn part now).Agree Body.Alike SameFinding (bodyTurn part other) := by
  rw [bodyTurn, bodyTurn, alike.cursor_eq, alike.advanced_eq]
  rw [if_neg hdollar, if_neg hdollar]
  split
  · split
    · exact ⟨.refl _, rfl⟩
    · exact ⟨alike.heredoc, rfl⟩
  split
  · exact ⟨alike.heredoc, rfl, rfl⟩
  split
  · exact lineFeedTurn_agree alike
  · exact textTurn_agree alike

/-- In a text without dollar signs the mode of a heredoc makes no difference to a scan. -/
theorem readBody_agree (alike : h.Alike k) (hdollars : '$' ∉ c.place.ahead) (part : BodyPart) :
    SameFinding (readBody part h c) (readBody part k c) := by
  refine Turn.run_agree (fun now other => now.Alike other ∧ UnderWay h c.place.ahead now) ?_
    ⟨⟨alike, rfl, rfl⟩, ⟨.same, fun _ => rfl, List.suffix_rfl⟩⟩
  rintro now other ⟨halike, hinside⟩
  have hdollar : now.cursor.lookahead ≠ '$' := by
    intro hdollar
    have hend : now.cursor.atEnd = false :=
      Cursor.atEnd_of_sees (x := '$') (by simp [Cursor.sees, hdollar]) (by decide)
    have hconsumes := (Cursor.Consumes.consume hend).leads.ahead_eq
    rw [hdollar] at hconsumes
    exact hdollars (hinside.onward.mem (by rw [hconsumes]; simp))
  exact (bodyTurn_agree halike hdollar).inside (bodyTurn_leadsTo hinside)

/-! ## Raw bodies -/

/-- Whether a scan that returns a part in front of an expansion has marked its heredoc. -/
def MarksOpening (result : BodyResult) : Prop :=
  ∀ c, result.2 = .part .heredocOpening c → result.1.started = true

theorem bodyTurn_marksOpening (now : Body) :
    (bodyTurn .leading now).LeadsTo (fun _ => True) MarksOpening := by
  rw [bodyTurn]
  split
  · split
    · rintro c ⟨⟩
    · rintro c ⟨⟩
  split
  · trivial
  split
  · rw [dollarTurn]
    dsimp only
    split
    · trivial
    split
    · split
      · exact fun _ _ => rfl
      · trivial
    split
    · exact fun _ _ => rfl
    · rintro c ⟨⟩
  split
  · rw [lineFeedTurn_eq rfl]
    generalize meetDelimiter _ _ = found
    obtain ⟨met, after⟩ := found
    cases met with
    | false => trivial
    | true =>
        cases hstarted : now.heredoc.started with
        | true => exact fun _ _ => hstarted
        | false =>
            intro c hfound
            simp [closingLine, hstarted, BodyPart.final] at hfound
  · by_cases hstart : now.cursor.place.atLineStart = true
    · rw [textTurn_at_start hstart]
      dsimp only
      generalize meetDelimiter _ _ = found
      obtain ⟨met, after⟩ := found
      cases met with
      | false => trivial
      | true => rintro c ⟨⟩
    · rw [textTurn, if_neg hstart]
      trivial

/-- A scan returns a part in front of an expansion only of a heredoc that it leaves marked. -/
theorem readBody_marksOpening (h : Heredoc) (c : Cursor) : MarksOpening (readBody .leading h c) :=
  Turn.run_of_leadsTo (fun _ => True) (fun now _ => bodyTurn_marksOpening now) trivial

/-- The body of a raw heredoc is returned whole or not at all, and the heredoc is not marked
as started. -/
theorem readBody_raw (raw : h.raw = true) (fresh : h.started = false) (c : Cursor) :
    (readBody .leading h c).1.started = false ∧
      ((readBody .leading h c).2 = .nothing ∨
        ∃ d, (readBody .leading h c).2 = .part .heredocBody d) := by
  have hends := readBody_ends .leading h c
  have hmarks := readBody_marksOpening h c
  generalize readBody .leading h c = result at hends hmarks
  obtain ⟨left, finding⟩ := result
  have hmarked {h' : Heredoc} (marked : h.Marked h') : h'.started = false := by
    cases marked with
    | same => exact fresh
    | started hraw => simp [raw] at hraw
  rw [Ends] at hends
  dsimp only at hends
  cases hends with
  | cut => exact ⟨rfl, .inr ⟨_, rfl⟩⟩
  | middle marked =>
      have hstarted : left.started = true := hmarks _ rfl
      rw [hmarked marked] at hstarted
      cases hstarted
  | last _ marked => exact ⟨hmarked marked, .inr ⟨_, rfl⟩⟩
  | closing trailing => cases trailing
  | nothing => exact ⟨fresh, .inl rfl⟩
  | lost marked => exact ⟨hmarked marked, .inl rfl⟩

/-! ## Calls -/

variable {accepted : Accepted} {s : State}

/-- A call that accepts nothing but the first part of a body scans it, if it accepts
anything. -/
theorem scan_leading (drawn : ∀ kind ∈ accepted, kind = .heredocBody ∨ kind = .heredocOpening)
    (fresh : h.started = false) (s : State) (c : Cursor) :
    (s.push h).scan accepted c =
      if .heredocOpening ∈ accepted ∨ .heredocBody ∈ accepted then
        let result := (s.push h).afterBody accepted s.heredocs (readBody .leading h c)
        ⟨result.1, result.2.answer accepted⟩
      else ⟨s.push h, none⟩ := by
  have hnot (kind : Kind) (hkind : kind ≠ .heredocBody ∧ kind ≠ .heredocOpening) :
      kind ∉ accepted := fun haccepted => (drawn kind haccepted).elim hkind.1 hkind.2
  have hdrawn : ∀ kind ∈ accepted, kind ∈ bodyKinds := by
    intro kind hkind
    rcases drawn kind hkind with rfl | rfl <;> decide
  rw [scan_of_drawn hdrawn, bodyResolvers]
  split
  · next haccepts =>
    have hasked : Resolver.heredocBody.asked (s.push h) accepted :=
      ⟨haccepts, ⟨h, rfl, fresh⟩, hnot .errorRecovery (by decide)⟩
    have hinner : (s.push h).heredocs = h :: s.heredocs := rfl
    have hrun : Resolver.heredocBody.run (s.push h) accepted c =
        (s.push h).afterBody accepted s.heredocs (readBody .leading h c) := by
      rw [Resolver.run, State.readBody_of_cons hinner]
    rw [walk_of_decides _ hasked (by rw [hrun]; exact State.decides_afterBody _ _), hrun]
  · next hsilent =>
    refine walk_of_silent ?_ none
    intro resolver hresolver other hasked
    simp only [List.mem_cons, List.not_mem_nil, or_false] at hresolver
    rcases hresolver with rfl | rfl | rfl
    · exact hsilent hasked.1
    · exact hnot .heredocEnd (by decide) hasked.1
    · exact hnot .heredocContent (by decide) hasked.1

/-- Such a call claims nothing but a whole body of a raw heredoc, and does not mark it. -/
theorem scan_raw (drawn : ∀ kind ∈ accepted, kind = .heredocBody ∨ kind = .heredocOpening)
    (raw : h.raw = true) (fresh : h.started = false) (s : State) (c : Cursor) :
    (∀ found ∈ ((s.push h).scan accepted c).claim, found.1 = .heredocBody) ∧
      ∃ h', ((s.push h).scan accepted c).state = s.push h' ∧ h'.started = false := by
  rw [scan_leading drawn fresh]
  split
  · have hraw := readBody_raw raw fresh c
    generalize readBody .leading h c = result at hraw
    obtain ⟨left, finding⟩ := result
    obtain ⟨hfresh, rfl | ⟨d, rfl⟩⟩ := hraw
    · exact ⟨by rintro _ ⟨⟩, left, rfl, hfresh⟩
    · refine ⟨?_, left, rfl, hfresh⟩
      intro found hfound
      rw [Ruling.eq_of_answer hfound]
  · exact ⟨by rintro _ ⟨⟩, h, rfl, fresh⟩

/-- In a text without dollar signs such calls claim the same of heredocs that differ at most
in their mode, and leave such heredocs. -/
theorem scan_alike (drawn : ∀ kind ∈ accepted, kind = .heredocBody ∨ kind = .heredocOpening)
    (alike : h.Alike k) (fresh : h.started = false) (hdollars : '$' ∉ c.place.ahead) (s : State) :
    ((s.push k).scan accepted c).claim = ((s.push h).scan accepted c).claim ∧
      ∃ h' k', h'.Alike k' ∧ ((s.push h).scan accepted c).state = s.push h' ∧
        ((s.push k).scan accepted c).state = s.push k' := by
  rw [scan_leading drawn fresh, scan_leading drawn (alike.started_eq.trans fresh)]
  split
  · obtain ⟨hleft, hfinding⟩ := readBody_agree alike hdollars .leading
    have hends := readBody_ends .leading h c
    generalize readBody .leading h c = result at hleft hfinding hends
    generalize readBody .leading k c = other at hleft hfinding
    obtain ⟨left, finding⟩ := result
    obtain ⟨otherLeft, finding⟩ := other
    obtain rfl : finding = _ := hfinding
    cases finding with
    | part | nothing => exact ⟨rfl, left, otherLeft, hleft, rfl, rfl⟩
    | closing =>
        cases hends with
        | closing trailing => cases trailing
  · exact ⟨rfl, h, k, alike, rfl, rfl⟩

/-- Of a raw heredoc whose body is still to come, a call for it returns the whole body or
nothing, whatever dollar signs there are, and does not mark the heredoc as started. In a text
without dollar signs it returns the same token, in the same place, as if the heredoc were not
raw, and leaves states that differ at most in the mode of that heredoc. -/
theorem raw_body_takes_dollars_as_text
    (drawn : ∀ kind ∈ accepted, kind = .heredocBody ∨ kind = .heredocOpening)
    (fresh : h.started = false) (s : State) (p : Place) :
    let raw := Scanner.call (s.push { h with raw := true }) accepted p
    let plain := Scanner.call (s.push { h with raw := false }) accepted p
    ((∀ token ∈ raw.token, token.kind = .heredocBody) ∧
      ∃ h', raw.state = s.push h' ∧ h'.started = false) ∧
    ('$' ∉ p.ahead → plain.token = raw.token ∧ plain.place = raw.place ∧
      ∃ h' k', h'.Alike k' ∧ raw.state = s.push h' ∧ plain.state = s.push k') := by
  intro raw plain
  obtain ⟨hkind, hstate⟩ := scan_raw (h := { h with raw := true }) drawn rfl fresh s (.begin p)
  refine ⟨⟨fun token htoken => ?_, hstate⟩, fun hdollars => ?_⟩
  · obtain ⟨c, hclaim, -⟩ := Scanner.exists_claim_of_token htoken
    exact hkind _ hclaim
  · obtain ⟨hclaim, hstates⟩ := scan_alike (c := .begin p) drawn
      (Heredoc.Alike.raw_changed h true false) fresh hdollars s
    obtain ⟨htoken, hplace⟩ := Scanner.call_congr hclaim
    exact ⟨htoken, hplace, hstates⟩

/-- A body with an indented line that begins like the delimiter, and with an escape. -/
theorem raw_body_takes_dollars_as_text_indented :
    let h : Heredoc := ⟨false, false, true, ['E', 'F']⟩
    let p : Place := .first ['\n', 'x', '\\', 'E', '\n', '\t', 'E', '\n', 'E', 'F']
    let raw := Scanner.call (State.initial.push { h with raw := true }) bodies p
    let plain := Scanner.call (State.initial.push { h with raw := false }) bodies p
    (∀ kind ∈ bodies, kind = .heredocBody ∨ kind = .heredocOpening) ∧ h.started = false ∧
      '$' ∉ p.ahead ∧ (∀ token ∈ raw.token, token.kind = .heredocBody) ∧
      plain.token = raw.token ∧ plain.place = raw.place ∧
      ∃ h' k', h'.Alike k' ∧ raw.state = State.initial.push h' ∧
        plain.state = State.initial.push k' := by
  intro h p raw plain
  have hdrawn : ∀ kind ∈ bodies, kind = .heredocBody ∨ kind = .heredocOpening := by
    simp [bodies]
  have hdollars : '$' ∉ p.ahead := by decide
  obtain ⟨⟨hkind, -⟩, halike⟩ :=
    raw_body_takes_dollars_as_text (h := h) hdrawn rfl State.initial p
  exact ⟨hdrawn, rfl, hdollars, hkind, halike hdollars⟩

end ContextLexer.Shell
