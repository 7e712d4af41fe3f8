/-
# Bodies that the end of the text cuts off

A body without a closing line runs to the end of the text. What is returned of it ends where
the scan has looked for the delimiter last. Where that is depends on how the scan has come to
the beginnings of the lines: over a line feed behind which it looks, amid whitespace behind
which it looks, or over a line feed that it takes along with a line that is a part of the
delimiter. One line after the other leads from one such beginning to the next, and the end of
the text leaves what has been passed since the last look.
-/

import ContextLexer.Proofs.Shell.Heredoc.Calls

namespace ContextLexer.Shell

open Scanner (Sees)
open PlainHeredoc (BeginsLine beginsLine_feed not_beginsLine)

/-! ## Beginnings of lines -/

/-- How a scan comes to the beginning of a line. -/
inductive LineStart
  /-- Over a line feed, behind which it looks for the delimiter. -/
  | seen
  /-- Amid whitespace, behind which it looks. -/
  | skipped
  /-- Over a line feed that it takes along, with the text since the last look. -/
  | taken (since : List Char)
  deriving DecidableEq, Repr

namespace LineStart

/-- Where a look behind the whitespace in front of a line leads. The scan takes along the
character behind the part of the delimiter that it has met, and if the whole line is such a
part, that is the line feed. -/
def looked (delimiter line : List Char) : LineStart :=
  if line.all isSpace then .skipped
  else if line.dropWhile isSpace <+: delimiter then .taken (line.dropWhile isSpace ++ ['\n'])
  else .seen

/-- Whether the scan looks behind the whitespace in front of a line. -/
def skips (h : Heredoc) (line : List Char) : LineStart → Bool
  | .seen => !h.indented && line.head?.any isSpace
  | .skipped => true
  | .taken _ => !line.isEmpty

/-- Where a line leads from its beginning. -/
def after (h : Heredoc) (line : List Char) (here : LineStart) : LineStart :=
  if here.skips h line then looked h.delimiter line else .seen

/-- Where lines lead from the beginning of the first one. -/
def behind (h : Heredoc) (lines : List (List Char)) (here : LineStart) : LineStart :=
  lines.foldl (fun there line => there.after h line) here

theorem behind_cons (h : Heredoc) (line : List Char) (lines : List (List Char))
    (here : LineStart) : here.behind h (line :: lines) = (here.after h line).behind h lines := rfl

/-- What the end of the text leaves of the last line, and of what was taken in front of it. -/
def unseen : LineStart → List Char → List Char
  | .taken since, last => if last = [] then since else last.dropWhile isSpace
  | .seen, last | .skipped, last => last.dropWhile isSpace

/-- What a scan does at the beginning of a line. -/
def turn (h : Heredoc) : LineStart → Cursor → Turn Body BodyResult
  | .seen, c =>
    afterFeed h .leading
      (meetDelimiter h.delimiter (if h.indented then c.consumeWhile isSpace else c).markEnd)
  | .skipped, c =>
    afterStart h .heredocBody (meetDelimiter h.delimiter (c.consumeWhile isSpace).markEnd)
  | .taken _, c => .again ⟨h, c, true⟩

theorem unseen_of_skips {h : Heredoc} {last : List Char} {here : LineStart}
    (skips : here.skips h last = true) : here.unseen last = last.dropWhile isSpace := by
  cases here with
  | seen | skipped => rfl
  | taken since =>
      rw [unseen, if_neg]
      simpa [LineStart.skips] using skips

section

variable {delimiter space text : List Char}

theorem looked_blank (blank : ∀ c ∈ space, isSpace c = true) :
    looked delimiter space = .skipped := by
  rw [looked, if_pos (List.all_eq_true.mpr blank)]

theorem not_all_isSpace (flush : ∀ c ∈ text.head?, isSpace c = false) (nonempty : text ≠ []) :
    ¬ (space ++ text).all isSpace = true := by
  obtain ⟨x, text, rfl⟩ := List.exists_cons_of_ne_nil nonempty
  simp [flush x rfl]

variable (blank : ∀ c ∈ space, isSpace c = true) (flush : ∀ c ∈ text.head?, isSpace c = false)
  (nonempty : text ≠ [])

include blank flush nonempty

theorem looked_part (part : text <+: delimiter) :
    looked delimiter (space ++ text) = .taken (text ++ ['\n']) := by
  rw [looked, if_neg (not_all_isSpace flush nonempty), dropWhile_run blank flush,
    if_pos part]

theorem looked_other (other : ¬ text <+: delimiter) :
    looked delimiter (space ++ text) = .seen := by
  rw [looked, if_neg (not_all_isSpace flush nonempty), dropWhile_run blank flush,
    if_neg other]

end

end LineStart

/-- What comes of a scan behind a turn. -/
def runTurn : Turn Body BodyResult → BodyResult
  | .again later => runBody .leading later
  | .done result => result

theorem runBody_eq_runTurn (now : Body) :
    runBody .leading now = runTurn (bodyTurn .leading now) := by
  rw [runBody, Turn.run_eq]
  cases bodyTurn .leading now <;> rfl

/-! ## Inside lines -/

variable {h : Heredoc} {before line text ahead rest last : List Char} {x : Char} {start : Place}
  {mark : Option Place}

theorem flush_append (nonempty : text ≠ []) (flush : ∀ c ∈ text.head?, isSpace c = false)
    (ahead : List Char) : ∀ c ∈ (text ++ ahead).head?, isSpace c = false := by
  obtain ⟨x, text, rfl⟩ := List.exists_cons_of_ne_nil nonempty
  exact flush

/-- Whether there is nothing in a text for a scan to act on. -/
def IsInert (text : List Char) : Prop :=
  ∀ c ∈ text, c ≠ '\n' ∧ c ≠ '\x00' ∧ c ≠ '\\' ∧ c ≠ '$'

/-- Inside a line a text is taken without a look. -/
theorem run_inside (inert : IsInert text) (begins : ¬ BeginsLine before) :
    runBody .leading ⟨h, ⟨.between before (text ++ ahead), start, mark⟩, true⟩ =
      runBody .leading ⟨h, ⟨.between (before ++ text) ahead, start, mark⟩, true⟩ := by
  induction text generalizing before with
  | nil => simp
  | cons x text ih =>
      obtain ⟨hx, htext⟩ := List.forall_mem_cons.mp inert
      have hturn : bodyTurn .leading
          ⟨h, ⟨.between before (x :: (text ++ ahead)), start, mark⟩, true⟩ = _ :=
        (bodyTurn_eq_textTurn (by simp) hx).trans (textTurn_inside begins)
      refine (runBody_of_again hturn).trans ((ih htext (not_beginsLine hx.1)).trans ?_)
      simp

/-- At the end of the text the heredoc is cleared. -/
theorem run_end (whole : List Char) :
    runBody .leading ⟨h, ⟨.between whole [], start, mark⟩, true⟩ =
      (.cleared, .part .heredocBody ⟨.between whole [], start, mark⟩) :=
  runBody_of_done (by simp [bodyTurn, BodyPart.final])

theorem run_feed :
    runBody .leading ⟨h, ⟨.between before ('\n' :: rest), start, mark⟩, true⟩ =
      runTurn (LineStart.seen.turn h ⟨.between (before ++ ['\n']) rest, start, mark⟩) := by
  rw [runBody_eq_runTurn, bodyTurn_eq_lineFeedTurn .leading (by simp), lineFeedTurn_eq rfl]
  simp [LineStart.turn]

/-- Where a line begins the scan looks behind whitespace. -/
theorem run_start (hx : x ≠ '\n' ∧ x ≠ '\x00' ∧ x ≠ '\\' ∧ x ≠ '$') (begins : BeginsLine before) :
    runBody .leading ⟨h, ⟨.between before (x :: rest), start, mark⟩, true⟩ =
      runTurn (LineStart.skipped.turn h ⟨.between before (x :: rest), start, mark⟩) := by
  have hstart : (Place.between before (x :: rest)).atLineStart = true :=
    (Place.atLineStart_between _ _).mpr begins
  rw [runBody_eq_runTurn, bodyTurn_eq_textTurn (by simp) hx, textTurn_at_start hstart]
  rfl

theorem turn_seen_blank {space : List Char} (indented : h.indented = true)
    (blank : ∀ c ∈ space, isSpace c = true) :
    LineStart.seen.turn h ⟨.between before (space ++ ahead), start, mark⟩ =
      LineStart.seen.turn h ⟨.between (before ++ space) ahead, start, mark⟩ := by
  rw [LineStart.turn, if_pos indented, consumeWhile_space blank, LineStart.turn, if_pos indented]

theorem turn_skipped_space {space : List Char} (blank : ∀ c ∈ space, isSpace c = true) :
    LineStart.skipped.turn h ⟨.between before (space ++ ahead), start, mark⟩ =
      LineStart.skipped.turn h ⟨.between (before ++ space) ahead, start, mark⟩ := by
  rw [LineStart.turn, consumeWhile_space blank]
  rfl

/-! ## Looks -/

section

variable (inert : IsInert text) (unlike : ¬ h.delimiter <+: text)
  (hahead : ∀ c ∈ ahead.head?, c = '\n')

include inert unlike hahead

/-- A look at a text of a line meets a part of the delimiter. -/
theorem exists_met :
    ∃ met, text = met ++ unmet h.delimiter text ∧ ∀ before start mark,
      meetDelimiter h.delimiter ⟨.between before (text ++ ahead), start, mark⟩ =
        (false, ⟨.between (before ++ met) (unmet h.delimiter text ++ ahead), start, mark⟩) := by
  obtain ⟨met, hsplit, hmeet⟩ := meetDelimiter_of_unlike unlike
    fun c hc => ⟨(inert c hc).1, (inert c hc).2.1⟩
  exact ⟨met, hsplit, hmeet ahead fun c hc => .inl (hahead c hc)⟩

/-- Behind a look at a text that is a part of the delimiter, the scan takes along what comes
behind the text. -/
theorem run_skipped_part (flush : ∀ c ∈ (text ++ ahead).head?, isSpace c = false)
    (part : text <+: h.delimiter) :
    runTurn (LineStart.skipped.turn h ⟨.between before (text ++ ahead), start, mark⟩) =
      runBody .leading ⟨h, Cursor.consume ⟨.between (before ++ text) ahead, start,
        some (.between before (text ++ ahead))⟩, true⟩ := by
  obtain ⟨met, hsplit, hmeet⟩ := exists_met inert unlike hahead
  rw [unmet_eq_nil_iff.mpr part, List.append_nil] at hsplit
  rw [unmet_eq_nil_iff.mpr part, List.nil_append] at hmeet
  rw [LineStart.turn, consumeWhile_nothing flush, Cursor.markEnd_mk, hmeet, ← hsplit]
  rfl

/-- Behind a look at another text the scan goes on to the end of that. -/
theorem run_skipped_other (flush : ∀ c ∈ (text ++ ahead).head?, isSpace c = false)
    (other : ¬ text <+: h.delimiter) :
    runTurn (LineStart.skipped.turn h ⟨.between before (text ++ ahead), start, mark⟩) =
      runBody .leading ⟨h, ⟨.between (before ++ text) ahead, start,
        some (.between before (text ++ ahead))⟩, true⟩ := by
  obtain ⟨met, hsplit, hmeet⟩ := exists_met inert unlike hahead
  obtain ⟨y, left, hleft⟩ := List.exists_cons_of_ne_nil (mt unmet_eq_nil_iff.mp other)
  rw [hleft] at hsplit hmeet
  obtain ⟨hy, hinert⟩ : (y ≠ '\n' ∧ y ≠ '\x00' ∧ y ≠ '\\' ∧ y ≠ '$') ∧ IsInert left := by
    have hmem (c : Char) (hc : c ∈ y :: left) : c ∈ text := hsplit ▸ List.mem_append_right met hc
    exact ⟨inert y (hmem y (by simp)), fun c hc => inert c (hmem c (by simp [hc]))⟩
  have hrun := @run_inside h (before ++ met ++ [y]) left ahead start
    (some (.between before (text ++ ahead))) hinert (not_beginsLine hy.1)
  rw [LineStart.turn, consumeWhile_nothing flush, Cursor.markEnd_mk, hmeet, afterStart, runTurn,
    List.cons_append, Cursor.consume_mk, Place.next_between_cons, hrun]
  simp [hsplit]

/-- Behind a look at a line feed the scan goes on to the end of the text, too. If it looks
once more, it does so at the same place. -/
theorem run_met (flush : ∀ c ∈ text.head?, isSpace c = false) :
    runTurn (afterFeed h .leading (meetDelimiter h.delimiter
        ⟨.between before (text ++ ahead), start, some (.between before (text ++ ahead))⟩)) =
      runBody .leading ⟨h, ⟨.between (before ++ text) ahead, start,
        some (.between before (text ++ ahead))⟩, true⟩ := by
  obtain ⟨met, hsplit, hmeet⟩ := exists_met inert unlike hahead
  have hinert : IsInert (unmet h.delimiter text) := fun c hc =>
    inert c ((unmet_suffix h.delimiter text).subset hc)
  rw [hmeet, afterFeed, runTurn]
  by_cases begins : BeginsLine (before ++ met)
  · -- No line begins behind a part of the delimiter, so that nothing is met.
    have hmet : met = [] := Decidable.byContradiction fun hne =>
      not_beginsLine_append hne (fun hfeed => (inert '\n' (hsplit ▸ by simp [hfeed])).1 rfl) before
        begins
    rw [hmet, List.nil_append] at hsplit
    rw [hmet, List.append_nil] at begins ⊢
    rw [← hsplit]
    cases text with
    | nil => simp
    | cons x text =>
        have hother : ¬ x :: text <+: h.delimiter := fun hpart => by
          rw [unmet_eq_nil_iff.mpr hpart] at hsplit
          cases hsplit
        exact (run_start (inert x (by simp)) begins).trans
          (run_skipped_other inert unlike hahead (by simpa using flush) hother)
  · rw [run_inside hinert begins, List.append_assoc, ← hsplit]

end

/-! ## Lines -/

namespace LineStart

/-- Where a line feed was taken along, the mark is in front of the text since the last look.
Behind a fixed beginning a text has been passed, and another one follows. -/
def Marked (origin passed rest : List Char) (mark : Option Place) : LineStart → Prop
  | .taken since => ∃ front, passed = front ++ since ∧
      mark = some (.between (origin ++ front) (since ++ rest))
  | _ => True

end LineStart

/-- Whether a line is passed by a scan. -/
structure Heredoc.Passes (h : Heredoc) (line : List Char) : Prop where
  inert : IsInert line
  unlike : ¬ h.delimiter <+: line.dropWhile isSpace

namespace Heredoc.Passes

/-- What is passed of a line that begins with whitespace. -/
theorem behind_space {space : List Char} (passes : h.Passes (space ++ text))
    (blank : ∀ c ∈ space, isSpace c = true) (flush : ∀ c ∈ text.head?, isSpace c = false) :
    IsInert text ∧ ¬ h.delimiter <+: text := by
  obtain ⟨hinert, hunlike⟩ := passes
  rw [dropWhile_run blank flush] at hunlike
  exact ⟨fun c hc => hinert c (by simp [hc]), hunlike⟩

end Heredoc.Passes

/-- Behind a line feed the scan comes to the end of a line, unless it has to look once more
behind whitespace, or passes over the line. -/
theorem run_seen_line {space : List Char} (passes : h.Passes (space ++ text))
    (blank : ∀ c ∈ space, isSpace c = true) (flush : ∀ c ∈ text.head?, isSpace c = false)
    (hahead : ∀ c ∈ ahead.head?, c = '\n')
    (stays : LineStart.seen.skips h (space ++ text) = false)
    (hlook : h.indented = true → ∀ c ∈ (text ++ ahead).head?, isSpace c = false) :
    runTurn (LineStart.seen.turn h ⟨.between before (space ++ text ++ ahead), start, mark⟩) =
      runBody .leading ⟨h, ⟨.between (before ++ space ++ text) ahead, start,
        some (.between (before ++ space) (text ++ ahead))⟩, true⟩ := by
  obtain ⟨hinert, hunlike⟩ := passes.behind_space blank flush
  cases hindented : h.indented with
  | true =>
      rw [List.append_assoc space, LineStart.turn, if_pos hindented,
        Cursor.consumeWhile_between blank (hlook hindented), Cursor.markEnd_mk]
      exact run_met hinert hunlike hahead flush
  | false =>
      have hspace : space = [] := by
        cases space with
        | nil => rfl
        | cons x space => simp [LineStart.skips, hindented, blank] at stays
      rw [hspace, List.nil_append, List.append_nil, LineStart.turn, hindented, if_neg (by simp),
        Cursor.markEnd_mk]
      exact run_met hinert hunlike hahead flush

/-- A look behind the whitespace in front of a line leads to the next line. -/
theorem run_looked (passes : h.Passes line) (origin passed rest : List Char) (start : Place)
    (mark : Option Place) :
    ∃ mark', (LineStart.looked h.delimiter line).Marked origin (passed ++ line ++ ['\n']) rest
        mark' ∧
      runTurn (LineStart.skipped.turn h
        ⟨.between (origin ++ passed) (line ++ '\n' :: rest), start, mark⟩) =
      runTurn ((LineStart.looked h.delimiter line).turn h
        ⟨.between (origin ++ (passed ++ line ++ ['\n'])) rest, start, mark'⟩) := by
  obtain ⟨space, text, rfl, hspace, htext⟩ := exists_run isSpace line
  obtain ⟨hinert, hunlike⟩ := passes.behind_space hspace htext
  by_cases hnil : text = []
  · -- A line of whitespace is passed over with its line feed.
    subst hnil
    have hfeed : ∀ c ∈ space ++ ['\n'], isSpace c = true := by
      simpa [or_imp, forall_and] using ⟨hspace, by decide⟩
    have hturn := @turn_skipped_space h (origin ++ passed) rest start mark _ hfeed
    rw [LineStart.looked_blank (by simpa using hspace)]
    exact ⟨mark, trivial, by simpa using congrArg runTurn hturn⟩
  · have hflush := flush_append hnil htext ('\n' :: rest)
    have hturn := @turn_skipped_space h (origin ++ passed) (text ++ '\n' :: rest) start mark _
      hspace
    rw [List.append_assoc space, hturn]
    by_cases hpart : text <+: h.delimiter
    · rw [LineStart.looked_part hspace htext hnil hpart,
        run_skipped_part hinert hunlike (by simp) hflush hpart]
      exact ⟨some (.between (origin ++ (passed ++ space)) (text ++ ['\n'] ++ rest)),
        ⟨passed ++ space, by simp, by simp⟩, by simp [LineStart.turn, runTurn]⟩
    · rw [LineStart.looked_other hspace htext hnil hpart,
        run_skipped_other hinert hunlike (by simp) hflush hpart, run_feed]
      exact ⟨some (.between (origin ++ (passed ++ space)) (text ++ ['\n'] ++ rest)), trivial,
        by simp⟩

/-- What a scan comes to at the end of the text: its last look was behind the kept text, and
it has passed the unseen one since. Both follow a fixed beginning. -/
def cutOff (origin kept unseen : List Char) (start : Place) : BodyResult :=
  (.cleared, .part .heredocBody
    ⟨.between (origin ++ (kept ++ unseen)) [], start, some (.between (origin ++ kept) unseen)⟩)

/-- A look behind the whitespace in front of the last line is the last one. -/
theorem run_last_looked (passes : h.Passes last) (origin passed : List Char) (start : Place)
    (mark : Option Place) :
    ∃ kept, passed ++ last = kept ++ last.dropWhile isSpace ∧
      runTurn (LineStart.skipped.turn h ⟨.between (origin ++ passed) last, start, mark⟩) =
        cutOff origin kept (last.dropWhile isSpace) start := by
  obtain ⟨space, text, rfl, hspace, htext⟩ := exists_run isSpace last
  obtain ⟨hinert, hunlike⟩ := passes.behind_space hspace htext
  rw [dropWhile_run hspace htext]
  refine ⟨passed ++ space, by simp, ?_⟩
  rw [turn_skipped_space hspace, ← List.append_nil text]
  have hflush : ∀ c ∈ (text ++ []).head?, isSpace c = false := by simpa using htext
  by_cases hpart : text <+: h.delimiter
  · -- There is no line feed to take along.
    rw [run_skipped_part hinert hunlike (by simp) hflush hpart]
    exact (run_end _).trans (by simp [cutOff])
  · rw [run_skipped_other hinert hunlike (by simp) hflush hpart]
    exact (run_end _).trans (by simp [cutOff])

section

variable (nonempty : h.delimiter ≠ []) (begins : ∀ c ∈ h.delimiter.head?, isSpace c = false)

include nonempty begins

/-- Nothing of the delimiter is met at whitespace, so that the scan looks once more, behind
that. -/
theorem run_seen_space (flat : h.indented = false) (hspace : isSpace x = true)
    (hx : x ≠ '\n' ∧ x ≠ '\x00' ∧ x ≠ '\\' ∧ x ≠ '$') (hstart : BeginsLine before) :
    runTurn (LineStart.seen.turn h ⟨.between before (x :: rest), start, mark⟩) =
      runTurn (LineStart.skipped.turn h ⟨.between before (x :: rest), start, mark⟩) := by
  have hhead : x ∉ h.delimiter.head? := fun hmem => by simp [begins x hmem] at hspace
  rw [LineStart.turn, flat, if_neg (by simp), Cursor.markEnd_mk,
    meetDelimiter_of_head? nonempty hhead]
  exact run_start hx hstart

/-- Where the scan looks behind whitespace, it makes no difference how it has come there. -/
theorem run_skips {here : LineStart} (inert : IsInert line) (hstart : BeginsLine before)
    (skips : here.skips h line = true) :
    runTurn (here.turn h ⟨.between before (line ++ ahead), start, mark⟩) =
      runTurn (LineStart.skipped.turn h ⟨.between before (line ++ ahead), start, mark⟩) := by
  cases here with
  | skipped => rfl
  | taken since =>
      cases line with
      | nil => cases skips
      | cons x line => exact run_start (inert x (by simp)) hstart
  | seen =>
      obtain ⟨hflat, hspace⟩ : h.indented = false ∧ line.head?.any isSpace = true := by
        simpa [LineStart.skips] using skips
      cases line with
      | nil => cases hspace
      | cons x line => exact run_seen_space nonempty begins hflat hspace (inert x (by simp)) hstart

/-- From the beginning of a line the scan comes to that of the next one. -/
theorem run_after (passes : h.Passes line) {origin passed : List Char}
    (hstart : BeginsLine (origin ++ passed)) (rest : List Char) (start : Place)
    (mark : Option Place) (here : LineStart) :
    ∃ mark', (here.after h line).Marked origin (passed ++ line ++ ['\n']) rest mark' ∧
      runTurn (here.turn h ⟨.between (origin ++ passed) (line ++ '\n' :: rest), start, mark⟩) =
      runTurn ((here.after h line).turn h
        ⟨.between (origin ++ (passed ++ line ++ ['\n'])) rest, start, mark'⟩) := by
  have hinert := passes.inert
  rw [LineStart.after]
  cases hskips : here.skips h line with
  | true =>
      obtain ⟨mark', hmarked, hrun⟩ := run_looked passes origin passed rest start mark
      exact ⟨mark', hmarked, (run_skips nonempty begins hinert hstart hskips).trans hrun⟩
  | false =>
      cases here with
      | skipped => cases hskips
      | taken since =>
          obtain rfl : line = [] := by simpa [LineStart.skips] using hskips
          exact ⟨mark, trivial, run_feed.trans (by simp)⟩
      | seen =>
          obtain ⟨space, text, rfl, hspace, htext⟩ := exists_run isSpace line
          by_cases hblank : h.indented = true ∧ text = []
          · -- The line is passed over with its line feed.
            obtain ⟨hindented, rfl⟩ := hblank
            have hfeed : ∀ c ∈ space ++ ['\n'], isSpace c = true := by
              simpa [or_imp, forall_and] using ⟨hspace, by decide⟩
            have hturn := @turn_seen_blank h (origin ++ passed) rest start mark _ hindented hfeed
            exact ⟨mark, trivial, by simpa using congrArg runTurn hturn⟩
          · have hlook (hindented : h.indented = true) := flush_append
              (fun hnil => hblank ⟨hindented, hnil⟩) htext ('\n' :: rest)
            refine ⟨some (.between (origin ++ passed ++ space) (text ++ '\n' :: rest)), trivial, ?_⟩
            rw [run_seen_line passes hspace htext (by simp) hskips hlook, run_feed]
            simp

/-- The end of the text leaves what the last line and its beginning leave. -/
theorem run_last (passes : h.Passes last) {origin passed : List Char}
    (hstart : BeginsLine (origin ++ passed)) (here : LineStart)
    (marked : here.Marked origin passed last mark) (start : Place) :
    ∃ kept, passed ++ last = kept ++ here.unseen last ∧
      runTurn (here.turn h ⟨.between (origin ++ passed) last, start, mark⟩) =
        cutOff origin kept (here.unseen last) start := by
  have hinert := passes.inert
  cases hskips : here.skips h last with
  | true =>
      obtain ⟨kept, htext, hrun⟩ := run_last_looked passes origin passed start mark
      have heq := @run_skips h (origin ++ passed) last [] start mark nonempty begins here hinert
        hstart hskips
      rw [List.append_nil] at heq
      rw [LineStart.unseen_of_skips hskips]
      exact ⟨kept, htext, heq.trans hrun⟩
  | false =>
      cases here with
      | skipped => cases hskips
      | taken since =>
          obtain rfl : last = [] := by simpa [LineStart.skips] using hskips
          obtain ⟨front, rfl, rfl⟩ := marked
          exact ⟨front, by simp [LineStart.unseen],
            (run_end _).trans (by simp [cutOff, LineStart.unseen])⟩
      | seen =>
          rw [LineStart.unseen]
          obtain ⟨space, text, rfl, hspace, htext⟩ := exists_run isSpace last
          have hrun := @run_seen_line h (origin ++ passed) text [] start mark space passes hspace
            htext (by simp) hskips fun _ => by simpa using htext
          rw [List.append_nil, List.append_nil, run_end] at hrun
          rw [hrun, dropWhile_run hspace htext]
          exact ⟨passed ++ space, by simp, by simp [cutOff]⟩

/-- From the beginning of a line the scan comes to the end of the text. -/
theorem run_behind {lines : List (List Char)} (passes : ∀ line ∈ lines, h.Passes line)
    (hlast : h.Passes last) {origin passed : List Char} (hstart : BeginsLine (origin ++ passed))
    (here : LineStart) (marked : here.Marked origin passed (linesText lines ++ last) mark)
    (start : Place) :
    ∃ kept, passed ++ (linesText lines ++ last) = kept ++ (here.behind h lines).unseen last ∧
      runTurn (here.turn h ⟨.between (origin ++ passed) (linesText lines ++ last), start, mark⟩) =
        cutOff origin kept ((here.behind h lines).unseen last) start := by
  induction lines generalizing passed here mark with
  | nil => exact run_last nonempty begins hlast hstart here marked start
  | cons line lines ih =>
      obtain ⟨hline, hlines⟩ := List.forall_mem_cons.mp passes
      obtain ⟨mark', hmarked, hrun⟩ := run_after nonempty begins hline hstart
        (linesText lines ++ last) start mark here
      have hfeed : BeginsLine (origin ++ (passed ++ line ++ ['\n'])) := by
        rw [← List.append_assoc]
        exact beginsLine_feed _
      obtain ⟨kept, htext, hrest⟩ := ih hlines hfeed (here.after h line) hmarked
      rw [LineStart.behind_cons]
      exact ⟨kept, by simpa using htext, by simpa using hrun.trans hrest⟩

/-- A call for a body that the end of the text cuts off shows the text up to the last look for
the delimiter, and clears the heredoc. -/
theorem sees_cutOff {lines : List (List Char)} (fresh : h.started = false)
    (passes : ∀ line ∈ lines, h.Passes line) (hlast : h.Passes last) (s : State)
    (before : List Char) :
    ∃ kept, linesText lines ++ last = kept ++ (LineStart.seen.behind h lines).unseen last ∧
      Sees [.call bodies] ⟨s.push h, .between before ('\n' :: (linesText lines ++ last))⟩
        [(some (.heredocBody, kept), .between (before ++ '\n' :: kept)
          ((LineStart.seen.behind h lines).unseen last))]
        ⟨s.push .cleared, .between (before ++ '\n' :: kept)
          ((LineStart.seen.behind h lines).unseen last)⟩ := by
  let text : List Char := linesText lines ++ last
  obtain ⟨kept, htext, hrun⟩ := @run_behind h last none nonempty begins lines passes hlast
    (before ++ ['\n']) [] (by simp [BeginsLine]) .seen trivial (.between (before ++ ['\n']) text)
  have hreads : readBody .leading h (.begin (.between before ('\n' :: text))) =
      cutOff (before ++ ['\n']) kept ((LineStart.seen.behind h lines).unseen last)
        (.between (before ++ ['\n']) text) := by
    have hfeed : (Cursor.begin (.between before ('\n' :: text))).ignore =
        ⟨.between (before ++ ['\n']) text, .between (before ++ ['\n']) text, none⟩ := by
      simp [Cursor.begin, Cursor.ignore]
    have hturn : bodyTurn .leading ⟨h, .begin (.between before ('\n' :: text)), false⟩ =
        LineStart.seen.turn h
          ⟨.between (before ++ ['\n']) text, .between (before ++ ['\n']) text, none⟩ :=
      (bodyTurn_eq_lineFeedTurn .leading (by simp [Cursor.begin])).trans (lineFeedTurn_eq hfeed)
    rw [readBody_eq_runBody, runBody_eq_runTurn, hturn]
    simpa using hrun
  rw [List.nil_append] at htext
  have hsees := sees_of_scan (before ++ ['\n']) kept ((LineStart.seen.behind h lines).unseen last)
    (scan_part s fresh hreads (by decide)) (by simp [text, htext]) rfl
  exact ⟨kept, htext, by simpa using hsees⟩

end

/-- A body without dollar signs and escapes that the end of the text cuts off is returned
whole, and its heredoc is cleared, just in case the last look for the delimiter is at the end:
nothing but whitespace follows the last line feed, and if nothing at all does, the scan has
not taken that line feed along with a part of the delimiter. -/
theorem cut_off_body_whole_iff {lines : List (List Char)} (fresh : h.started = false)
    (nonempty : h.delimiter ≠ []) (begins : ∀ c ∈ h.delimiter.head?, isSpace c = false)
    (plain : ∀ line ∈ lines ++ [last], ∀ c ∈ line, c ≠ '\n' ∧ c ≠ '\x00' ∧ c ≠ '\\' ∧ c ≠ '$')
    (unlike : ∀ line ∈ lines ++ [last], ¬ h.delimiter <+: line.dropWhile isSpace)
    (s : State) (before : List Char) :
    Sees [.call bodies] ⟨s.push h, .between before ('\n' :: (linesText lines ++ last))⟩
        [(some (.heredocBody, linesText lines ++ last),
          .between (before ++ '\n' :: (linesText lines ++ last)) [])]
        ⟨s.push { raw := false, started := false, indented := false, delimiter := [] },
          .between (before ++ '\n' :: (linesText lines ++ last)) []⟩ ↔
      (LineStart.seen.behind h lines).unseen last = [] := by
  have hpasses : ∀ line ∈ lines ++ [last], h.Passes line := fun line hline =>
    ⟨plain line hline, unlike line hline⟩
  obtain ⟨kept, htext, hshown⟩ := @sees_cutOff h last nonempty begins lines fresh
    (fun line hline => hpasses line (by simp [hline])) (hpasses last (by simp)) s before
  constructor
  · intro hwhole
    have hkept : kept = linesText lines ++ last := by
      simpa using congrArg (fun seen => seen.1.map fun sight => sight.1.map Prod.snd)
        (hshown.symm.trans hwhole)
    rw [hkept] at htext
    simpa using htext
  · intro hunseen
    rw [hunseen, List.append_nil] at htext
    rw [hunseen, ← htext] at hshown
    exact hshown

/-- An indented line, a line that is a part of the delimiter, and whitespace behind them. -/
theorem cut_off_body_whole_blank :
    let h : Heredoc := ⟨false, false, false, ['E', 'F']⟩
    let lines : List (List Char) := [[' ', 'x'], ['E']]
    (∀ line ∈ lines ++ [[' ']], ∀ c ∈ line, c ≠ '\n' ∧ c ≠ '\x00' ∧ c ≠ '\\' ∧ c ≠ '$') ∧
    (∀ line ∈ lines ++ [[' ']], ¬ h.delimiter <+: line.dropWhile isSpace) ∧
    Sees [.call bodies]
      ⟨State.initial.push h, .between [] ('\n' :: (linesText lines ++ [' ']))⟩
      [(some (.heredocBody, linesText lines ++ [' ']),
        .between ([] ++ '\n' :: (linesText lines ++ [' '])) [])]
      ⟨State.initial.push { raw := false, started := false, indented := false, delimiter := [] },
        .between ([] ++ '\n' :: (linesText lines ++ [' '])) []⟩ := by
  intro h lines
  have hplain : ∀ line ∈ lines ++ [[' ']], ∀ c ∈ line,
      c ≠ '\n' ∧ c ≠ '\x00' ∧ c ≠ '\\' ∧ c ≠ '$' := by
    simp [lines]
  have hunlike : ∀ line ∈ lines ++ [[' ']], ¬ h.delimiter <+: line.dropWhile isSpace := by
    decide
  have hiff := cut_off_body_whole_iff (h := h) rfl (by decide) (by rintro _ ⟨⟩; decide) hplain
    hunlike State.initial []
  exact ⟨hplain, hunlike, hiff.mpr (by decide)⟩

/-- Text behind the last line feed, at which the scan looked last, is not returned, although
the heredoc is cleared. -/
theorem text_behind_last_look_lost :
    let h : Heredoc := ⟨false, false, false, ['E']⟩
    let now : Progress State :=
      ⟨State.initial.push h, .between [] ('\n' :: (linesText [] ++ ['x']))⟩
    ¬ h.delimiter <+: ['x'].dropWhile isSpace ∧
    Sees [.call bodies] now [(some (.heredocBody, []), .between ['\n'] ['x'])]
      ⟨State.initial.push { raw := false, started := false, indented := false, delimiter := [] },
        .between ['\n'] ['x']⟩ ∧
    [] ≠ linesText [] ++ ['x'] := by
  refine ⟨by decide, ?_, by decide⟩
  rfl

end ContextLexer.Shell
