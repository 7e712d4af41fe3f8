/-
# Bodies with dollar signs

A dollar sign that begins no expansion is text. The scan takes it, and the body is returned
up to its delimiter, but the heredoc counts as started from then on, and so the body is
returned as one that an expansion follows. Only in a part of the delimiter that is met where
a line begins is a dollar sign not noticed.
-/

import ContextLexer.Proofs.Shell.Heredoc.Calls

namespace ContextLexer.Shell

open Scanner (Sees)

/-! ## Lines without expansions -/

/-- Whether no dollar sign in a text begins an expansion. -/
def Expansionless : List Char → Prop
  | [] => True
  | c :: text => (c = '$' → ¬ Expands text) ∧ Expansionless text

instance decidableExpansionless : (text : List Char) → Decidable (Expansionless text)
  | [] => .isTrue trivial
  | _ :: text =>
    have := decidableExpansionless text
    inferInstanceAs (Decidable ((_ → ¬ _ = true) ∧ _))

theorem Expansionless.not_expands {front back : List Char}
    (h : Expansionless (front ++ '$' :: back)) : ¬ Expands back := by
  induction front with
  | nil => exact h.1 rfl
  | cons x front ih => exact ih h.2

/-- A line of a body in which no expansion begins, and which begins with neither whitespace
nor the delimiter. -/
structure Inert (delimiter line : List Char) : Prop where
  plain : ∀ c ∈ line, c ≠ '\n' ∧ c ≠ '\x00' ∧ c ≠ '\\'
  dollars : Expansionless line
  flush : ∀ c ∈ line.head?, isSpace c = false
  unlike : ¬ delimiter <+: line

variable {h : Heredoc} {line : List Char} {lines : List (List Char)} {before after : List Char}
  {start : Place} {mark : Option Place}

/-- A dollar sign at the end of a line begins no expansion, whatever the next line is. -/
theorem not_expands_append_feed {back : List Char} (hback : ¬ Expands back) (ahead : List Char) :
    ¬ Expands (back ++ '\n' :: ahead) := by
  cases back with
  | nil =>
      change ¬ beginsExpansionInBody '\n' = true
      decide
  | cons x back => exact hback

/-- From behind a look for the delimiter the scan goes on to the end of the line. -/
theorem run_unmet (closes : CanClose h.delimiter) (raw : h.raw = false)
    (inert : Inert h.delimiter line) {met : List Char}
    (hsplit : line = met ++ unmet h.delimiter line) (before ahead : List Char) (start : Place)
    (mark : Option Place) :
    ∃ mark', runBody .leading
        ⟨h, ⟨.between (before ++ met) (unmet h.delimiter line ++ '\n' :: ahead), start, mark⟩,
          true⟩ =
      runBody .leading ⟨h.behind (unmet h.delimiter line),
        ⟨.between (before ++ line) ('\n' :: ahead), start, mark'⟩, true⟩ := by
  have hplain : ∀ c ∈ unmet h.delimiter line, c ≠ '\n' ∧ c ≠ '\x00' ∧ c ≠ '\\' := fun c hc =>
    inert.plain c ((unmet_suffix h.delimiter line).subset hc)
  have hinert : ∀ front back, unmet h.delimiter line = front ++ '$' :: back →
      ¬ Expands (back ++ '\n' :: ahead) := by
    intro front back hfront
    have hline : line = met ++ front ++ '$' :: back := by
      rw [hsplit, hfront, List.append_assoc]
    exact not_expands_append_feed (hline ▸ inert.dollars).not_expands ahead
  have hsettled : ∀ c ∈ (unmet h.delimiter line).head?, Settled h (before ++ met) c := by
    intro c hc begins
    by_cases hnil : met = []
    · have hline : unmet h.delimiter line = line := by
        rw [hnil, List.nil_append] at hsplit
        exact hsplit.symm
      rw [hline] at hc
      exact ⟨inert.flush c hc, not_head?_of_unmet hline c hc⟩
    · -- Behind a part of the delimiter no line begins.
      have hfeed : '\n' ∉ met := fun hmem => (inert.plain '\n' (hsplit ▸ by simp [hmem])).1 rfl
      exact absurd begins (not_beginsLine_append hnil hfeed before)
  obtain ⟨mark', hrun⟩ := run_line raw closes.nonempty hplain hinert hsettled .leading start mark
  refine ⟨mark', hrun.trans ?_⟩
  rw [List.append_assoc, ← hsplit]

/-! ## From one line feed to the next -/

variable {now : Body} {ahead : List Char}

/-- Behind an arrow with a dash, the look for the delimiter passes over an empty line. -/
theorem run_empty (hindented : h.indented = true) (hheredoc : now.heredoc = h)
    (hx : now.cursor.lookahead = '\n')
    (hfeed : (if now.advanced then now.cursor.consume else now.cursor.ignore) =
      ⟨.between before ('\n' :: ahead), start, mark⟩) :
    runBody .leading now =
      runBody .leading ⟨h, ⟨.between before ('\n' :: ahead), start, mark⟩, true⟩ := by
  have hlater := @lineFeedTurn_eq .leading
    ⟨h, ⟨.between before ('\n' :: ahead), start, mark⟩, true⟩
    ⟨.between (before ++ ['\n']) ahead, start, mark⟩ (by simp)
  have hspace : ∀ c ∈ ['\n'], isSpace c = true := List.forall_mem_singleton.mpr (by decide)
  apply runBody_congr
  rw [bodyTurn_eq_lineFeedTurn .leading hx, bodyTurn_eq_lineFeedTurn .leading (by simp),
    lineFeedTurn_eq hfeed, hlater, hheredoc, if_pos hindented, if_pos hindented,
    ← consumeWhile_space hspace]
  rfl

/-- From a line feed the scan goes on to the next one. -/
theorem run_next (closes : CanClose h.delimiter) (raw : h.raw = false)
    (inert : Inert h.delimiter line) (hheredoc : now.heredoc = h)
    (hx : now.cursor.lookahead = '\n')
    (hfeed : (if now.advanced then now.cursor.consume else now.cursor.ignore) =
      ⟨.between before (line ++ '\n' :: ahead), start, mark⟩) :
    ∃ mark', runBody .leading now =
      runBody .leading ⟨h.behind (unmet h.delimiter line),
        ⟨.between (before ++ line) ('\n' :: ahead), start, mark'⟩, true⟩ := by
  by_cases hempty : h.indented = true ∧ line = []
  · obtain ⟨hindented, rfl⟩ := hempty
    refine ⟨mark, (run_empty hindented hheredoc hx hfeed).trans ?_⟩
    simp [unmet]
  · have hstay : (if h.indented then
          Cursor.consumeWhile isSpace ⟨.between before (line ++ '\n' :: ahead), start, mark⟩
        else ⟨.between before (line ++ '\n' :: ahead), start, mark⟩) =
          ⟨.between before (line ++ '\n' :: ahead), start, mark⟩ := by
      by_cases hindented : h.indented = true
      · obtain ⟨x, text, rfl⟩ := List.exists_cons_of_ne_nil fun hnil =>
          hempty ⟨hindented, hnil⟩
        rw [consumeWhile_nothing (by simpa using inert.flush), ite_self]
      · rw [if_neg hindented]
    obtain ⟨met, hsplit, hmeet⟩ := meetDelimiter_of_unlike inert.unlike
      fun c hc => ⟨(inert.plain c hc).1, (inert.plain c hc).2.1⟩
    have hturn := (bodyTurn_eq_lineFeedTurn .leading hx).trans (lineFeedTurn_eq hfeed)
    rw [hheredoc, hstay, Cursor.markEnd_mk, hmeet ('\n' :: ahead) (by simp)] at hturn
    obtain ⟨mark', hrun⟩ := run_unmet closes raw inert hsplit before ahead start
      (some (.between before (line ++ '\n' :: ahead)))
    exact ⟨mark', (runBody_of_again hturn).trans hrun⟩

/-! ## The whole body -/

/-- The result of a scan that finds the delimiter behind a whole body: the kind of the part
tells whether the heredoc counts as started. -/
def Heredoc.closed (h : Heredoc) (whole after : List Char) (start : Place) : BodyResult :=
  (h, .part (if h.started then .heredocOpening else .heredocBody)
    ⟨.between (whole ++ h.delimiter) after, start,
      some (.between whole (h.delimiter ++ after))⟩)

/-- From a line feed the scan goes on to the closing delimiter, and on the way it marks the
heredoc at every dollar sign that it takes. -/
theorem run_lines (closes : CanClose h.delimiter) (raw : h.raw = false)
    (inert : ∀ line ∈ lines, Inert h.delimiter line) (hheredoc : now.heredoc = h)
    (hx : now.cursor.lookahead = '\n')
    (hfeed : (if now.advanced then now.cursor.consume else now.cursor.ignore) =
      ⟨.between before (linesText lines ++ (h.delimiter ++ after)), start, mark⟩) :
    runBody .leading now =
      (h.behind (lines.flatMap (unmet h.delimiter))).closed (before ++ linesText lines) after
        start := by
  induction lines generalizing h now before mark with
  | nil =>
      have hturn := (bodyTurn_eq_lineFeedTurn .leading hx).trans (lineFeedTurn_eq hfeed)
      rw [hheredoc, linesText_nil, List.nil_append,
        consumeWhile_nothing (closes.isSpace_head? after), ite_self, Cursor.markEnd_mk,
        meetDelimiter_of_next closes.solid] at hturn
      rw [runBody_of_done hturn]
      cases hstarted : h.started <;>
        simp [hstarted, Heredoc.closed, closingLine, BodyPart.middle, BodyPart.final]
  | cons line lines ih =>
      obtain ⟨hline, hlines⟩ := List.forall_mem_cons.mp inert
      obtain ⟨mark', hrun⟩ := run_next closes raw hline hheredoc hx (by simpa using hfeed)
      have hrest := @ih (h.behind (unmet h.delimiter line)) (before ++ line ++ ['\n']) mark'
        ⟨h.behind (unmet h.delimiter line), ⟨.between (before ++ line) ('\n' ::
          (linesText lines ++ (h.delimiter ++ after))), start, mark'⟩, true⟩
        closes raw hlines rfl (by simp) (by simp)
      rw [hrun, hrest, List.flatMap_cons, Heredoc.behind_append]
      simp

/-- The scan begins at the line feed that ends the line of the arrow. -/
theorem readBody_lines (closes : CanClose h.delimiter) (raw : h.raw = false)
    (inert : ∀ line ∈ lines, Inert h.delimiter line) (before after : List Char) :
    readBody .leading h
        (.begin (.between before ('\n' :: (linesText lines ++ (h.delimiter ++ after))))) =
      (h.behind (lines.flatMap (unmet h.delimiter))).closed (before ++ ['\n'] ++ linesText lines)
        after (.between (before ++ ['\n']) (linesText lines ++ (h.delimiter ++ after))) := by
  let now : Body :=
    ⟨h, .begin (.between before ('\n' :: (linesText lines ++ (h.delimiter ++ after)))), false⟩
  have hfeed : (if now.advanced then now.cursor.consume else now.cursor.ignore) =
      ⟨.between (before ++ ['\n']) (linesText lines ++ (h.delimiter ++ after)),
        .between (before ++ ['\n']) (linesText lines ++ (h.delimiter ++ after)), none⟩ := by
    simp [now, Cursor.begin, Cursor.ignore]
  exact run_lines closes raw inert rfl (by simp [Cursor.begin]) hfeed

/-- A call for a body without expansions shows all of it; the kind of the token and the state
afterwards tell whether a dollar sign was taken. -/
theorem sees_dollars (fresh : h.started = false) (raw : h.raw = false)
    (closes : CanClose h.delimiter) (inert : ∀ line ∈ lines, Inert h.delimiter line) (s : State)
    (before after : List Char) :
    Sees [.call bodies]
      ⟨s.push h, .between before ('\n' :: (linesText lines ++ (h.delimiter ++ after)))⟩
      [(some (if '$' ∈ lines.flatMap (unmet h.delimiter) then .heredocOpening else .heredocBody,
          linesText lines),
        .between (before ++ '\n' :: linesText lines) (h.delimiter ++ after))]
      ⟨s.push (h.behind (lines.flatMap (unmet h.delimiter))),
        .between (before ++ '\n' :: linesText lines) (h.delimiter ++ after)⟩ := by
  have hreads := readBody_lines closes raw inert before after
  have hstarted : (h.behind (lines.flatMap (unmet h.delimiter))).started =
      decide ('$' ∈ lines.flatMap (unmet h.delimiter)) := by
    simp [Heredoc.behind, fresh]
  rw [Heredoc.closed, hstarted] at hreads
  simp only [decide_eq_true_eq] at hreads
  have hsees := sees_of_scan (before ++ ['\n']) (linesText lines) (h.delimiter ++ after)
    (scan_part s fresh hreads ?_) rfl (by simp [Cursor.stop])
  · simpa using hsees
  · split <;> decide

/-- A body without expansions and escapes, of which no line is indented, is returned as a body
without expansions, and the heredoc does not count as started, just in case the delimiter can
be met and no line has a dollar sign behind the part of the delimiter with which it begins. -/
theorem dollar_body_whole_iff (fresh : h.started = false) (raw : h.raw = false)
    (nonempty : h.delimiter ≠ [])
    (begins : ∀ c ∈ h.delimiter.head?, isSpace c = false ∧ c ≠ '\\' ∧ c ≠ '$')
    (inert : ∀ line ∈ lines, Inert h.delimiter line) (s : State) (before after : List Char) :
    Sees [.call bodies]
        ⟨s.push h, .between before ('\n' :: (linesText lines ++ (h.delimiter ++ after)))⟩
        [(some (.heredocBody, linesText lines),
          .between (before ++ '\n' :: linesText lines) (h.delimiter ++ after))]
        ⟨s.push h, .between (before ++ '\n' :: linesText lines) (h.delimiter ++ after)⟩ ↔
      (∀ c ∈ h.delimiter, c ≠ '\n' ∧ c ≠ '\x00') ∧
        ∀ line ∈ lines, '$' ∉ unmet h.delimiter line := by
  have hmem : '$' ∈ lines.flatMap (unmet h.delimiter) ↔
      ∃ line ∈ lines, '$' ∈ unmet h.delimiter line := List.mem_flatMap
  constructor
  · intro hwhole
    obtain ⟨c, hclaim⟩ := hwhole.exists_claim
    have hreads := reads_of_scan fresh hclaim
    have hsolid : ∀ c ∈ h.delimiter, c ≠ '\n' ∧ c ≠ '\x00' :=
      readBody_sealed h _ c (by rw [hreads]) (by rw [hreads]) nonempty
    refine ⟨hsolid, fun line hline hdollar => ?_⟩
    have hshown := sees_dollars fresh raw ⟨nonempty, hsolid, begins⟩ inert s before after
    rw [if_pos (hmem.mpr ⟨line, hline, hdollar⟩)] at hshown
    exact absurd (congrArg (fun seen => seen.1.map fun sight => sight.1.map Prod.fst)
      (hshown.symm.trans hwhole)) (by simp)
  · rintro ⟨hsolid, hdollars⟩
    have hnone : '$' ∉ lines.flatMap (unmet h.delimiter) := fun hdollar => by
      obtain ⟨line, hline, hdollar⟩ := hmem.mp hdollar
      exact hdollars line hline hdollar
    have hshown := sees_dollars fresh raw ⟨nonempty, hsolid, begins⟩ inert s before after
    rwa [if_neg hnone, Heredoc.behind_of_not_mem hnone] at hshown

/-- A line that is a part of the delimiter with a dollar sign in it, and an empty line. -/
theorem dollar_body_whole_in_delimiter :
    let h : Heredoc := ⟨false, false, true, ['E', '$', 'F']⟩
    let lines : List (List Char) := [['E', '$'], []]
    (∀ line ∈ lines, Inert h.delimiter line) ∧
    Sees [.call bodies]
      ⟨State.initial.push h, .between [] ('\n' :: (linesText lines ++ (['E', '$', 'F'] ++ [])))⟩
      [(some (.heredocBody, linesText lines),
        .between ([] ++ '\n' :: linesText lines) (['E', '$', 'F'] ++ []))]
      ⟨State.initial.push h, .between ([] ++ '\n' :: linesText lines) (['E', '$', 'F'] ++ [])⟩ := by
  intro h lines
  have hinert : ∀ line ∈ lines, Inert h.delimiter line := by
    simp only [lines, List.forall_mem_cons]
    exact ⟨⟨by simp, by decide, by rintro _ ⟨⟩; decide, by decide⟩,
      ⟨by simp, by decide, by simp, by decide⟩, by simp⟩
  have hiff := dollar_body_whole_iff (h := h) rfl rfl (by decide) (by rintro _ ⟨⟩; decide) hinert
    State.initial [] []
  exact ⟨hinert, hiff.mpr ⟨by simp [h], by decide⟩⟩

/-- A dollar sign in front of a space begins no expansion, but behind it the body is returned
as one that an expansion follows, and the heredoc counts as started. -/
theorem dollar_alone_marks_started :
    let h : Heredoc := ⟨false, false, false, ['E']⟩
    let line : List Char := ['a', ' ', '$', ' ', 'b']
    let now : Progress State :=
      ⟨State.initial.push h, .between [] ('\n' :: (linesText [line] ++ (['E'] ++ [])))⟩
    Inert h.delimiter line ∧
    Sees [.call bodies] now
      [(some (.heredocOpening, linesText [line]), .between ('\n' :: linesText [line]) ['E'])]
      ⟨State.initial.push { h with started := true }, .between ('\n' :: linesText [line]) ['E']⟩ ∧
    ¬ Sees [.call bodies] now
      [(some (.heredocBody, linesText [line]), .between ('\n' :: linesText [line]) ['E'])]
      ⟨State.initial.push h, .between ('\n' :: linesText [line]) ['E']⟩ := by
  intro h line now
  have hinert : Inert h.delimiter line :=
    ⟨by simp [line], by decide, by rintro _ ⟨⟩; decide, by decide⟩
  have hsees : Sees [.call bodies] now
      [(some (.heredocOpening, linesText [line]), .between ('\n' :: linesText [line]) ['E'])]
      ⟨State.initial.push { h with started := true }, .between ('\n' :: linesText [line]) ['E']⟩ :=
    rfl
  refine ⟨hinert, hsees, fun hwhole => ?_⟩
  exact absurd (congrArg (fun seen => seen.1.map fun sight => sight.1.map Prod.fst)
    (hsees.symm.trans hwhole)) (by decide)

end ContextLexer.Shell
