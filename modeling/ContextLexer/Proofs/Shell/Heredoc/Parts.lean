/-
# Scanning the texts between expansions

A scan of the text between two expansions looks for the delimiter behind every line feed,
and keeps the part of it that it meets. If that part holds no dollar sign, the scan comes to
the next expansion or to the closing line, wherever it has looked before. As in plain
bodies, the invariant says what can be left of the text. Where a line begins, it adds that
the look has failed at once, so that the scan steps over no more than one character there.
-/

import ContextLexer.Proofs.Shell.Heredoc.Interpolated

namespace ContextLexer.Shell

open PlainHeredoc (BeginsLine not_beginsLine)

namespace InterpolatedHeredoc

variable {h : InterpolatedHeredoc}

/-- The context of the heredoc, before or after its first text has been returned. -/
def context (h : InterpolatedHeredoc) (started : Bool) : Heredoc :=
  ⟨false, started, false, h.delimiter⟩

/-- Whether a look for the delimiter at the beginning of a line meets no more than text. -/
structure Harmless (h : InterpolatedHeredoc) (line : List Char) : Prop where
  leavesOpen : LeavesOpen h.delimiter line
  dollarless : ∀ met, met <+: h.delimiter → met <+: line → '$' ∉ met

/-- What comes next behind a text, and how much of it belongs to what is returned: nothing
of an expansion, and the line feed in front of the closing delimiter. -/
inductive Sequel (h : InterpolatedHeredoc) (started : Bool) : List Char → List Char → Prop
  | expansion {x : Char} (begins : beginsExpansionInBody x = true) (rest : List Char) :
      Sequel h started [] ('$' :: x :: rest)
  | closing (under : started = true) (after : List Char) :
      Sequel h started ['\n'] (h.delimiter ++ after)

/-! ## Delimiters -/

theorem feed_not_mem (h : InterpolatedHeredoc) : '\n' ∉ h.delimiter := fun hfeed =>
  absurd (h.solid '\n' hfeed).1 (by decide)

theorem feed_not_head (h : InterpolatedHeredoc) : '\n' ∉ h.delimiter.head? := fun hfeed =>
  h.feed_not_mem (List.mem_of_mem_head? hfeed)

theorem dollar_not_head (h : InterpolatedHeredoc) : '$' ∉ h.delimiter.head? := fun hdollar =>
  h.begins '$' hdollar (by simp)

theorem not_mem_head? {c : Char} (hc : ¬ [c] <+: h.delimiter) : c ∉ h.delimiter.head? := by
  intro hhead
  obtain ⟨word, hword⟩ := List.head?_eq_some_iff.mp hhead
  exact hc ⟨word, hword.symm⟩

theorem meet_delimiter (h : InterpolatedHeredoc) (before after : List Char) (start : Place)
    (mark : Option Place) :
    meetDelimiter h.delimiter ⟨.between before (h.delimiter ++ after), start, mark⟩ =
      (true, ⟨.between (before ++ h.delimiter) after, start, mark⟩) :=
  h.bare.meet_closing before after start mark

/-- Nothing of the delimiter is met at a character that it does not begin with. -/
theorem meet_nothing {c : Char} (hc : c ∉ h.delimiter.head?) (before text : List Char)
    (start : Place) (mark : Option Place) :
    meetDelimiter h.delimiter ⟨.between before (c :: text), start, mark⟩ =
      (false, ⟨.between before (c :: text), start, mark⟩) :=
  meetDelimiter_of_head? h.nonempty hc

/-- A line that is followed by another one is as harmless as it is by itself. -/
theorem Harmless.feed {line : List Char} (harmless : h.Harmless line) (rest : List Char) :
    h.Harmless (line ++ '\n' :: rest) where
  leavesOpen := by
    refine ⟨fun hprefix => harmless.leavesOpen.1 (prefix_of_not_mem h.feed_not_mem hprefix), ?_⟩
    intro c hc hspace
    cases line with
    | nil => exact (Option.some.inj hc).symm
    | cons x line => exact harmless.leavesOpen.2 c hc hspace
  dollarless := fun met hword hline =>
    harmless.dollarless met hword
      (prefix_of_not_mem (fun hfeed => h.feed_not_mem (hword.subset hfeed)) hline)

/-! ## Points of a text -/

/-- A text in which looks for the delimiter are harmless, with more behind it. -/
structure Fits (h : InterpolatedHeredoc) (text more : List Char) : Prop where
  plain : IsText text
  lines : ∀ line ∈ behindFeeds text, h.Harmless (line ++ more)

/-- What is left of a text with more behind it. -/
structure Inside (h : InterpolatedHeredoc) (more before left : List Char) : Prop
    extends h.Fits left more where
  settled : BeginsLine before →
    ∀ c ∈ (left ++ more).head?, c = '\n' ∨ isSpace c = false ∧ c ∉ h.delimiter.head?

variable {started : Bool} {shown rest more before left text : List Char} {x : Char}
  {start : Place} {mark : Option Place} {part : BodyPart}

/-- The text in front of a sequel ends there. -/
theorem Sequel.exists_cons (sequel : h.Sequel started shown rest) :
    ∃ y tail, shown ++ rest = y :: tail ∧ (y = '$' ∨ y = '\n') := by
  cases sequel with
  | expansion begins rest => exact ⟨'$', _, rfl, .inl rfl⟩
  | closing under after => exact ⟨'\n', _, rfl, .inr rfl⟩

theorem Fits.suffix (front : List Char) (fits : h.Fits (front ++ text) more) :
    h.Fits text more where
  plain := fun c hc => fits.plain c (List.mem_append_right front hc)
  lines := fun line hline => fits.lines line (behindFeeds_suffix front hline)

/-- A step over another character than a line feed leads on inside the text. -/
theorem Inside.next (inside : h.Inside more before (x :: left)) (hx : x ≠ '\n') :
    h.Inside more (before ++ [x]) left where
  toFits := inside.toFits.suffix [x]
  settled := fun begins => absurd begins (not_beginsLine hx)

/-- A look for the delimiter behind a line feed meets a part of it that is text, and leads on
inside. -/
theorem look_inside (sequel : h.Sequel started shown rest)
    (fits : h.Fits ('\n' :: text) (shown ++ rest)) (before : List Char) :
    ∃ met left, text = met ++ left ∧
      h.Inside (shown ++ rest) (before ++ ['\n'] ++ met) left ∧
      ∀ before start mark,
        meetDelimiter h.delimiter ⟨.between before (text ++ (shown ++ rest)), start, mark⟩ =
          (false, ⟨.between (before ++ met) (left ++ (shown ++ rest)), start, mark⟩) := by
  have harmless : h.Harmless (text ++ (shown ++ rest)) :=
    fits.lines text (by simp [behindFeeds])
  obtain ⟨y, tail, hmore, hy⟩ := sequel.exists_cons
  obtain ⟨met, left, hsplit, hword, hfeed, hstops, hmeet⟩ :=
    meetDelimiter_of_not_next harmless.leavesOpen.1
  have hfree : y ∉ met := by
    rcases hy with rfl | rfl
    · exact harmless.dollarless met hword ⟨left, hsplit.symm⟩
    · exact hfeed
  obtain ⟨left, rfl⟩ : met <+: text :=
    prefix_of_not_mem hfree ⟨left, by rw [← hsplit, hmore]⟩
  obtain rfl : left ++ (shown ++ rest) = _ := by simpa using hsplit
  refine ⟨met, left, rfl, ⟨fits.suffix ('\n' :: met), ?_⟩, hmeet⟩
  intro begins c hc
  obtain rfl : met = [] := Classical.byContradiction fun hne =>
    not_beginsLine_append hne hfeed _ begins
  by_cases hspace : isSpace c = true
  · exact .inl (harmless.leavesOpen.2 c hc hspace)
  · refine .inr ⟨by simpa using hspace, ?_⟩
    rcases hstops c hc with rfl | rfl | hne
    · exact fun hnul => (h.solid _ (List.mem_of_mem_head? hnul)).2.1 rfl
    · exact absurd (by decide) hspace
    · exact not_mem_head? hne

/-! ## Turns -/

/-- The scan at a point of a text. -/
def standing (h : InterpolatedHeredoc) (started : Bool) (before text : List Char) (start : Place)
    (mark : Option Place) : Body :=
  ⟨h.context started, ⟨.between before text, start, mark⟩, true⟩

/-- A point of a text at which the scan can stand. -/
def StandsIn (h : InterpolatedHeredoc) (started : Bool) (whole more : List Char) (start : Place)
    (now : Body) : Prop :=
  ∃ before left mark, before ++ left = whole ∧ h.Inside more before left ∧
    now = h.standing started before (left ++ more) start mark

theorem lineFeedTurn_context {now : Body} {feed : Cursor}
    (hcontext : now.heredoc = h.context started)
    (hfeed : (if now.advanced then now.cursor.consume else now.cursor.ignore) = feed) :
    lineFeedTurn part now =
      afterFeed (h.context started) part (meetDelimiter h.delimiter feed.markEnd) := by
  rw [lineFeedTurn_eq hfeed, hcontext]
  rfl

/-- A turn at a line feed leads into the text behind it. -/
theorem lineFeedTurn_stands {now : Body} (hcontext : now.heredoc = h.context started)
    (hfeed : (if now.advanced then now.cursor.consume else now.cursor.ignore) =
      ⟨.between (before ++ ['\n']) (text ++ (shown ++ rest)), start, mark⟩)
    (sequel : h.Sequel started shown rest) (fits : h.Fits ('\n' :: text) (shown ++ rest)) :
    ∃ later, h.StandsIn started (before ++ '\n' :: text) (shown ++ rest) start later ∧
      lineFeedTurn part now = .again later := by
  obtain ⟨met, left, rfl, hinside, hmeet⟩ := look_inside sequel fits before
  have hturn : lineFeedTurn part now =
      .again (h.standing started (before ++ ['\n'] ++ met) (left ++ (shown ++ rest)) start
        (some (.between (before ++ ['\n']) (met ++ left ++ (shown ++ rest))))) := by
    rw [lineFeedTurn_context hcontext hfeed, Cursor.markEnd_mk, hmeet]
    rfl
  exact ⟨_, ⟨_, left, _, by simp, hinside, rfl⟩, hturn⟩

/-- The cursor at the end of the closing line, whose delimiter it has only looked at. -/
def closed (h : InterpolatedHeredoc) (before after : List Char) (start : Place) : Cursor :=
  ⟨.between (before ++ ['\n'] ++ h.delimiter) after, start,
    some (.between (before ++ ['\n']) (h.delimiter ++ after))⟩

/-- A turn at the line feed in front of the delimiter finds it. -/
theorem lineFeedTurn_closes {now : Body} {after : List Char}
    (hcontext : now.heredoc = h.context true)
    (hfeed : (if now.advanced then now.cursor.consume else now.cursor.ignore) =
      ⟨.between (before ++ ['\n']) (h.delimiter ++ after), start, mark⟩) :
    lineFeedTurn part now =
      .done (h.context true, .part part.middle (h.closed before after start)) := by
  rw [lineFeedTurn_context hcontext hfeed, Cursor.markEnd_mk, h.meet_delimiter]
  cases part <;> rfl

/-- Where a line begins, the look behind the line feed has failed at once. -/
theorem Inside.isSettled (inside : h.Inside more before (x :: left)) (hx : x ≠ '\n')
    (started : Bool) : Settled (h.context started) before x := fun begins =>
  (inside.settled begins x rfl).resolve_left hx

/-- A turn inside the text leads on inside it. -/
theorem bodyTurn_stands (sequel : h.Sequel started shown rest)
    (inside : h.Inside (shown ++ rest) before (x :: left)) (start : Place)
    (mark : Option Place) :
    ∃ later, h.StandsIn started (before ++ x :: left) (shown ++ rest) start later ∧
      bodyTurn part (h.standing started before (x :: left ++ (shown ++ rest)) start mark) =
        .again later := by
  obtain ⟨hdollar, hslash, hnul⟩ := inside.plain x (by simp)
  by_cases hfeed : x = '\n'
  · subst hfeed
    have hturn : bodyTurn part
        (h.standing started before ('\n' :: left ++ (shown ++ rest)) start mark) =
          lineFeedTurn part
            (h.standing started before ('\n' :: left ++ (shown ++ rest)) start mark) := by
      simp [bodyTurn, standing]
    rw [hturn]
    refine @lineFeedTurn_stands h started shown rest before left start mark part _ rfl ?_ sequel
      inside.toFits
    simp [standing]
  · have hturn : bodyTurn part
        (h.standing started before (x :: left ++ (shown ++ rest)) start mark) =
          textTurn part (h.standing started before (x :: left ++ (shown ++ rest)) start mark) :=
      bodyTurn_eq_textTurn (by simp [standing]) ⟨hfeed, hnul, hslash, hdollar⟩
    obtain ⟨mark', hstep⟩ := @textTurn_steps part (h.context started) before
      (left ++ (shown ++ rest)) x start mark h.nonempty (inside.isSettled hfeed started)
    exact ⟨_, ⟨before ++ [x], left, mark', by simp, inside.next hfeed, rfl⟩,
      hturn.trans hstep⟩

/-- A turn at the end of the text ends the scan. What is shown ends in front of the expansion
or of the delimiter. -/
theorem bodyTurn_sequel (sequel : h.Sequel started shown rest) (part : BodyPart)
    (before : List Char) (start : Place) :
    ∃ c, c.start = start ∧ c.stop = .between (before ++ shown) rest ∧ ∀ mark,
      bodyTurn part (h.standing started before (shown ++ rest) start mark) =
        .done (h.context true, .part part.middle c) := by
  cases sequel with
  | @expansion x begins rest =>
      refine ⟨⟨.between (before ++ ['$']) (x :: rest), start,
        some (.between before ('$' :: x :: rest))⟩, rfl, by simp [Cursor.stop], ?_⟩
      intro mark
      exact @bodyTurn_expansion part (h.context started) (x :: rest) rfl begins before start mark
  | closing under after =>
      subst under
      refine ⟨h.closed before after start, rfl, rfl, ?_⟩
      intro mark
      have hturn : bodyTurn part
          (h.standing true before (['\n'] ++ (h.delimiter ++ after)) start mark) =
            lineFeedTurn part
              (h.standing true before (['\n'] ++ (h.delimiter ++ after)) start mark) := by
        simp [bodyTurn, standing]
      rw [hturn]
      exact @lineFeedTurn_closes h before start mark part _ after rfl (by simp [standing])

/-- The scan goes on from any point of the text to its end. -/
theorem run_stands (sequel : h.Sequel started shown rest) (part : BodyPart)
    {whole : List Char} {now : Body}
    (stands : h.StandsIn started whole (shown ++ rest) start now) :
    ∃ c, c.start = start ∧ c.stop = .between (whole ++ shown) rest ∧
      runBody part now = (h.context true, .part part.middle c) := by
  obtain ⟨c, hstart, hstop, hdone⟩ := bodyTurn_sequel sequel part whole start
  refine ⟨c, hstart, hstop, Turn.run_eq_of_invariant
    (h.StandsIn started whole (shown ++ rest) start) ?_ stands⟩
  rintro _ ⟨before, left, mark, rfl, inside, rfl⟩
  cases left with
  | nil =>
      left
      rw [List.append_nil] at hdone
      exact hdone mark
  | cons x left =>
      right
      exact bodyTurn_stands sequel inside start mark

/-! ## Scans -/

/-- A scan that begins at a line feed shows the text behind it. -/
theorem readBody_behind_feed (sequel : h.Sequel started shown rest) (part : BodyPart)
    (fits : h.Fits ('\n' :: text) (shown ++ rest)) (before : List Char) :
    ∃ c, c.start = .between (before ++ ['\n']) (text ++ (shown ++ rest)) ∧
      c.stop = .between (before ++ '\n' :: text ++ shown) rest ∧
      readBody part (h.context started)
          (.begin (.between before ('\n' :: (text ++ (shown ++ rest))))) =
        (h.context true, .part part.middle c) := by
  have hturn : bodyTurn part ⟨h.context started,
      .begin (.between before ('\n' :: (text ++ (shown ++ rest)))), false⟩ =
        lineFeedTurn part ⟨h.context started,
          .begin (.between before ('\n' :: (text ++ (shown ++ rest)))), false⟩ := by
    simp [bodyTurn, Cursor.begin]
  obtain ⟨later, hstands, hagain⟩ := @lineFeedTurn_stands h started shown rest before text
    (.between (before ++ ['\n']) (text ++ (shown ++ rest))) none part
    ⟨h.context started, .begin (.between before ('\n' :: (text ++ (shown ++ rest)))), false⟩
    rfl (by simp [Cursor.begin, Cursor.ignore]) sequel fits
  obtain ⟨c, hstart, hstop, hrun⟩ := run_stands sequel part hstands
  exact ⟨c, hstart, hstop, (runBody_of_again (hturn.trans hagain)).trans hrun⟩

/-- A scan that begins at the line feed in front of the delimiter shows nothing. -/
theorem readBody_at_closing (h : InterpolatedHeredoc) (before after : List Char) :
    ∃ c, c.start = .between (before ++ ['\n']) (h.delimiter ++ after) ∧
      c.stop = .between (before ++ ['\n']) (h.delimiter ++ after) ∧
      readBody .trailing (h.context true)
          (.begin (.between before ('\n' :: (h.delimiter ++ after)))) =
        (h.context true, .part .heredocContent c) := by
  refine ⟨h.closed before after (.between (before ++ ['\n']) (h.delimiter ++ after)), rfl, rfl,
    ?_⟩
  have hturn : bodyTurn .trailing ⟨h.context true,
      .begin (.between before ('\n' :: (h.delimiter ++ after))), false⟩ =
        lineFeedTurn .trailing ⟨h.context true,
          .begin (.between before ('\n' :: (h.delimiter ++ after))), false⟩ := by
    simp [bodyTurn, Cursor.begin]
  refine Turn.run_of_done (hturn.trans ?_)
  exact @lineFeedTurn_closes h before _ none .trailing _ after rfl
    (by simp [Cursor.begin, Cursor.ignore])

/-- A scan that begins inside a line shows the text from where its token starts. -/
theorem readBody_inside_line (sequel : h.Sequel started shown rest) (part : BodyPart)
    (inside : h.Inside (shown ++ rest) before (x :: left)) (hx : x ≠ '\n')
    (begins : ¬ BeginsLine before) (start : Place) :
    ∃ c, c.start = start ∧ c.stop = .between (before ++ x :: left ++ shown) rest ∧
      readBody part (h.context started)
          ⟨.between before (x :: left ++ (shown ++ rest)), start, none⟩ =
        (h.context true, .part part.middle c) := by
  obtain ⟨hdollar, hslash, hnul⟩ := inside.plain x (by simp)
  have hagain : bodyTurn part ⟨h.context started,
      ⟨.between before (x :: left ++ (shown ++ rest)), start, none⟩, false⟩ =
        .again (h.standing started (before ++ [x]) (left ++ (shown ++ rest)) start none) :=
    (bodyTurn_eq_textTurn (by simp) ⟨hx, hnul, hslash, hdollar⟩).trans (textTurn_inside begins)
  have hstands : h.StandsIn started (before ++ x :: left) (shown ++ rest) start
      (h.standing started (before ++ [x]) (left ++ (shown ++ rest)) start none) :=
    ⟨before ++ [x], left, none, by simp, inside.next hx, rfl⟩
  obtain ⟨c, hc, hstop, hrun⟩ := run_stands sequel part hstands
  exact ⟨c, hc, hstop, (runBody_of_again hagain).trans hrun⟩

/-- A scan behind an expansion declines where another one comes next. -/
theorem readBody_at_dollar (h : InterpolatedHeredoc) (before rest : List Char) :
    readBody .trailing (h.context true) (.begin (.between before ('$' :: rest))) =
      (h.context true, .nothing) := by
  apply Turn.run_of_done
  simp [bodyTurn, dollarTurn, Cursor.begin, context]

end InterpolatedHeredoc

end ContextLexer.Shell
