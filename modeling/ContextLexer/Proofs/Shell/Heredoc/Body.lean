/-
# Scanning bodies made of lines

A body of which a scan acts on nothing but line feeds is read in one part, which ends in
front of the closing delimiter, wherever the scan looked for the delimiter before. It may
look after a line feed, at the beginning of a line, and behind whitespace that stretches over
several lines; it keeps what it has taken for a part of the delimiter; and it may step over a
line feed without looking at it. All of this leads from one point of the body to a later one,
and a point of the body is either inside a line or at the beginning of the closing one. This
is the invariant of the scan.

Whitespace in front of the closing delimiter belongs to the part, and it is passed over
whether or not the arrow of the heredoc had a dash.
-/

import ContextLexer.Proofs.Shell.Heredoc.Turns

namespace ContextLexer.Shell

/-! ## Bodies -/

/-- Lines with their line feeds. -/
def linesText (lines : List (List Char)) : List Char := lines.flatMap (· ++ ['\n'])

@[simp] theorem linesText_nil : linesText [] = [] := rfl

@[simp] theorem linesText_cons (line : List Char) (lines : List (List Char)) :
    linesText (line :: lines) = line ++ '\n' :: linesText lines := by
  simp [linesText]

/-- A body that consists of lines in which a scan has nothing to act on and finds no
delimiter, with the delimiter behind them. -/
structure LinedBody where
  /-- The heredoc to which the body belongs. -/
  heredoc : Heredoc
  /-- The lines of the body, without their line feeds. -/
  lines : List (List Char)
  /-- The whitespace in front of the closing delimiter. -/
  indent : List Char
  fresh : heredoc.started = false
  closes : CanClose heredoc.delimiter
  plain : ∀ line ∈ lines, ∀ c ∈ line,
    c ≠ '\n' ∧ c ≠ '\x00' ∧ c ≠ '\\' ∧ (c = '$' → heredoc.raw = true)
  unlike : ∀ line ∈ lines, ¬ heredoc.delimiter <+: line.dropWhile isSpace
  blank : ∀ c ∈ indent, isSpace c = true ∧ c ≠ '\n'

namespace LinedBody

variable (b : LinedBody)

/-- The text of the body, up to the closing delimiter. -/
def text : List Char := linesText b.lines ++ b.indent

/-- Whether a text has nothing to act on in it. -/
def IsPlain (text : List Char) : Prop :=
  ∀ c ∈ text, c ≠ '\n' ∧ c ≠ '\x00' ∧ c ≠ '\\' ∧ (c = '$' → b.heredoc.raw = true)

/-- Whether a text can stand at the beginning of a line without closing the heredoc. -/
def IsUnlike (text : List Char) : Prop := ¬ b.heredoc.delimiter <+: text.dropWhile isSpace

/-- Whether a text can be a line of the body. -/
def IsLine (line : List Char) : Prop := b.IsPlain line ∧ b.IsUnlike line

theorem isLine_of_mem {line : List Char} (hline : line ∈ b.lines) : b.IsLine line :=
  ⟨b.plain line hline, b.unlike line hline⟩

variable {b}

theorem IsPlain.solid {text : List Char} (plain : b.IsPlain text) :
    ∀ c ∈ text, c ≠ '\n' ∧ c ≠ '\x00' := fun c hc => ⟨(plain c hc).1, (plain c hc).2.1⟩

/-- A text that the delimiter does not begin does not close the heredoc either if it does
not begin with whitespace. -/
theorem isUnlike_of_head? {text : List Char} (hhead : ∀ c ∈ text.head?, isSpace c = false)
    (hunlike : ¬ b.heredoc.delimiter <+: text) : b.IsUnlike text := by
  rw [IsUnlike]
  cases text with
  | nil => exact hunlike
  | cons x text =>
      rw [List.dropWhile_cons_of_neg (by simpa using hhead x)]
      exact hunlike

/-- The delimiter does not come next where a line begins. -/
theorem IsUnlike.not_begins {text : List Char} (hunlike : b.IsUnlike text) :
    ¬ b.heredoc.delimiter <+: text := by
  rintro ⟨rest, rfl⟩
  obtain ⟨x, word, hword, hx, -⟩ := b.closes.exists_cons
  refine hunlike ⟨rest, ?_⟩
  rw [hword, List.cons_append, List.dropWhile_cons_of_neg (by simp [hx])]

/-- Whitespace in front of lines leads up to the closing delimiter or into a line. -/
theorem lines_split {lines : List (List Char)} (hlines : ∀ line ∈ lines, b.IsLine line) :
    (∀ c ∈ linesText lines ++ b.indent, isSpace c = true) ∨
    ∃ blank line others, linesText lines = blank ++ (line ++ '\n' :: linesText others) ∧
      (∀ c ∈ blank, isSpace c = true) ∧ line ≠ [] ∧
      (∀ c ∈ line.head?, isSpace c = false) ∧ b.IsLine line ∧
      ∀ other ∈ others, b.IsLine other := by
  induction lines with
  | nil =>
      left
      intro c hc
      exact (b.blank c (by simpa using hc)).1
  | cons line lines ih =>
      obtain ⟨⟨hplain, hunlike⟩, hothers⟩ := List.forall_mem_cons.mp hlines
      obtain ⟨blank, text, rfl, hblank, htext⟩ := exists_run isSpace line
      rw [IsUnlike, dropWhile_run hblank htext] at hunlike
      have hline : b.IsLine text :=
        ⟨fun c hc => hplain c (by simp [hc]), isUnlike_of_head? htext hunlike⟩
      by_cases hnil : text = []
      · -- A line of whitespace alone is passed over with its line feed.
        subst hnil
        have hfeed : ∀ c ∈ blank ++ ['\n'], isSpace c = true := by
          intro c hc
          rcases List.mem_append.mp hc with hc | hc
          · exact hblank c hc
          · rw [List.mem_singleton.mp hc]
            decide
        rcases ih hothers with hall | ⟨more, text, others, htext, hmore, hrest⟩
        · left
          intro c hc
          have hc : c ∈ blank ++ ['\n'] ∨ c ∈ linesText lines ++ b.indent := by
            simpa [or_assoc] using hc
          exact hc.elim (hfeed c) (hall c)
        · right
          refine ⟨blank ++ ['\n'] ++ more, text, others, by simp [htext], ?_, hrest⟩
          intro c hc
          rcases List.mem_append.mp hc with hc | hc
          · exact hfeed c hc
          · exact hmore c hc
      · right
        exact ⟨blank, text, lines, by simp, hblank, hnil, htext, hline, hothers⟩

/-! ## Points of a body -/

variable {before line : List Char} {lines : List (List Char)}

open PlainHeredoc (BeginsLine beginsLine_feed not_beginsLine)

/-- Whether a text can be what is left of a line of the body. -/
def IsRest (b : LinedBody) (before line : List Char) : Prop :=
  b.IsPlain line ∧ (BeginsLine before → b.IsUnlike line)

theorem IsLine.isRest (hline : b.IsLine line) : b.IsRest before line :=
  ⟨hline.1, fun _ => hline.2⟩

theorem IsRest.next {x : Char} (hrest : b.IsRest before (x :: line)) :
    b.IsRest (before ++ [x]) line := by
  obtain ⟨⟨hx, -⟩, hplain⟩ := List.forall_mem_cons.mp hrest.1
  exact ⟨hplain, fun hbegins => absurd hbegins (not_beginsLine hx)⟩

theorem IsRest.drop {part : List Char} (hrest : b.IsRest before (part ++ line)) :
    b.IsRest (before ++ part) line := by
  induction part generalizing before with
  | nil =>
      simpa using hrest
  | cons x part ih =>
      have ih := ih hrest.next
      simpa using ih

/-- What is left of the body inside a line. -/
def unread (b : LinedBody) (line : List Char) (others : List (List Char)) : List Char :=
  line ++ '\n' :: (linesText others ++ b.indent)

theorem linesText_cons_append (line : List Char) (others : List (List Char)) :
    linesText (line :: others) ++ b.indent = b.unread line others := by
  simp [unread]

/-- What is left of the body at a point of it. -/
inductive Approaches (b : LinedBody) (before : List Char) : List Char → Prop
  /-- The point is inside a line. -/
  | inside {line : List Char} {others : List (List Char)} (rest : b.IsRest before line)
      (hothers : ∀ other ∈ others, b.IsLine other) : Approaches b before (b.unread line others)
  /-- The point is at the beginning of the closing line. -/
  | closing (begins : BeginsLine before) : Approaches b before b.indent

/-- Where a line begins, whole lines are left. -/
theorem approaches_lines (begins : BeginsLine before) (hlines : ∀ line ∈ lines, b.IsLine line) :
    b.Approaches before (linesText lines ++ b.indent) := by
  cases lines with
  | nil =>
      exact .closing begins
  | cons line lines =>
      obtain ⟨hline, hothers⟩ := List.forall_mem_cons.mp hlines
      rw [linesText_cons_append]
      exact .inside hline.isRest hothers

/-- A step inside a line, or over its line feed, leads to another point. -/
theorem exists_next {others : List (List Char)} (rest : b.IsRest before line)
    (hothers : ∀ other ∈ others, b.IsLine other) :
    ∃ x text, b.unread line others = x :: text ∧ b.Approaches (before ++ [x]) text := by
  cases line with
  | nil =>
      exact ⟨_, _, rfl, approaches_lines (beginsLine_feed before) hothers⟩
  | cons x line =>
      exact ⟨_, _, rfl, .inside rest.next hothers⟩

/-! ## Looking for the delimiter -/

variable {whole after : List Char} {start : Place} {mark : Option Place}

/-- A look for the delimiter either finds it behind the whole text in front of it, which
is marked, or ends inside a line. -/
def Looks (b : LinedBody) (whole after : List Char) (start : Place)
    (found : Bool × Cursor) : Prop :=
  found = (true, ⟨.between (whole ++ b.heredoc.delimiter) after, start,
    some (.between whole (b.heredoc.delimiter ++ after))⟩) ∨
  ∃ before line others mark, before ++ b.unread line others = whole ∧ b.IsRest before line ∧
    (∀ other ∈ others, b.IsLine other) ∧
    found = (false,
      ⟨.between before (b.unread line others ++ (b.heredoc.delimiter ++ after)), start, mark⟩)

/-- The delimiter is found where it comes next. -/
theorem looks_closing (whole after : List Char) (start : Place) (mark : Option Place) :
    b.Looks whole after start
      (meetDelimiter b.heredoc.delimiter
        (Cursor.mk (.between whole (b.heredoc.delimiter ++ after)) start mark).markEnd) :=
  .inl (meetDelimiter_of_next b.closes.solid)

/-- The delimiter is not found in a line of the body. -/
theorem looks_line {others : List (List Char)} (hline : b.IsLine line)
    (hothers : ∀ other ∈ others, b.IsLine other) (before after : List Char) (start : Place)
    (mark : Option Place) :
    b.Looks (before ++ b.unread line others) after start
      (meetDelimiter b.heredoc.delimiter
        (Cursor.mk (.between before (b.unread line others ++ (b.heredoc.delimiter ++ after)))
          start mark).markEnd) := by
  right
  obtain ⟨met, hsplit, hmeet⟩ := meetDelimiter_of_unlike hline.2.not_begins hline.1.solid
  have hmeet := hmeet ('\n' :: (linesText others ++ b.indent ++ (b.heredoc.delimiter ++ after)))
    (by simp)
  generalize unmet b.heredoc.delimiter line = left at hsplit hmeet
  subst hsplit
  have hunread (line : List Char) : b.unread line others ++ (b.heredoc.delimiter ++ after) =
      line ++ '\n' :: (linesText others ++ b.indent ++ (b.heredoc.delimiter ++ after)) := by
    simp [unread]
  rw [hunread, Cursor.markEnd_mk, hmeet, ← hunread]
  exact ⟨before ++ met, left, others, _, by simp [unread], hline.isRest.drop, hothers, rfl⟩

/-- A look behind all whitespace in front of lines. -/
theorem looks_behind_space (hlines : ∀ line ∈ lines, b.IsLine line) (before after : List Char)
    (start : Place) (mark : Option Place) :
    b.Looks (before ++ (linesText lines ++ b.indent)) after start
      (meetDelimiter b.heredoc.delimiter
        ((Cursor.mk
          (.between before (linesText lines ++ b.indent ++ (b.heredoc.delimiter ++ after)))
          start mark).consumeWhile isSpace).markEnd) := by
  rcases lines_split hlines with hall | ⟨blank, line, others, htext, hblank, hnil, hhead,
    hline, hothers⟩
  · rw [Cursor.consumeWhile_between hall (b.closes.isSpace_head? after)]
    exact looks_closing _ after start mark
  · have hunread : linesText lines ++ b.indent = blank ++ b.unread line others := by
      simp [htext, unread]
    have hstops : ∀ c ∈ (b.unread line others ++ (b.heredoc.delimiter ++ after)).head?,
        isSpace c = false := by
      obtain ⟨x, text, rfl⟩ := List.exists_cons_of_ne_nil hnil
      exact hhead
    rw [hunread, List.append_assoc blank, Cursor.consumeWhile_between hblank hstops,
      ← List.append_assoc]
    exact looks_line hline hothers _ after start mark

/-! ## Turns -/

/-- The scan at a point of the body, with a text behind the closing delimiter. -/
def standing (b : LinedBody) (before text after : List Char) (start : Place)
    (mark : Option Place) : Body :=
  ⟨b.heredoc, ⟨.between before (text ++ (b.heredoc.delimiter ++ after)), start, mark⟩, true⟩

/-- The result of the scan: the closing delimiter comes behind the whole text. -/
def closed (b : LinedBody) (whole after : List Char) (start : Place) : BodyResult :=
  (b.heredoc, .part .heredocBody ⟨.between (whole ++ b.heredoc.delimiter) after, start,
    some (.between whole (b.heredoc.delimiter ++ after))⟩)

/-- A turn leads to the result or to a point of the body. -/
def Advances (b : LinedBody) (whole after : List Char) (start : Place)
    (turn : Turn Body BodyResult) : Prop :=
  turn = .done (b.closed whole after start) ∨
  ∃ before text mark, before ++ text = whole ∧ b.Approaches before text ∧
    turn = .again (b.standing before text after start mark)

/-- What a turn at a line feed makes of a look leads on from inside a line. -/
theorem advances_of_looks {found : Bool × Cursor} (looks : b.Looks whole after start found) :
    b.Advances whole after start (afterFeed b.heredoc .leading found) := by
  rcases looks with rfl | ⟨before, line, others, mark, hwhole, hrest, hothers, rfl⟩
  · left
    simp [afterFeed, closed, b.fresh, closingLine, BodyPart.final]
  · exact .inr ⟨before, _, mark, hwhole, .inside hrest hothers, rfl⟩

/-- A turn at a line feed looks for the delimiter in the next line. -/
theorem lineFeedTurn_advances {now : Body} (hheredoc : now.heredoc = b.heredoc)
    (hfeed : (if now.advanced then now.cursor.consume else now.cursor.ignore) =
      ⟨.between before (linesText lines ++ b.indent ++ (b.heredoc.delimiter ++ after)), start,
        mark⟩)
    (begins : BeginsLine before) (hlines : ∀ line ∈ lines, b.IsLine line) :
    b.Advances (before ++ (linesText lines ++ b.indent)) after start
      (lineFeedTurn .leading now) := by
  rw [lineFeedTurn_eq hfeed, hheredoc]
  split
  · exact advances_of_looks (looks_behind_space hlines before after start mark)
  · cases lines with
    | cons line lines =>
        obtain ⟨hline, hothers⟩ := List.forall_mem_cons.mp hlines
        rw [linesText_cons_append]
        exact advances_of_looks (looks_line hline hothers before after start mark)
    | nil =>
        cases hindent : b.indent with
        | nil => exact advances_of_looks (by simpa using looks_closing before after start mark)
        | cons x indent =>
            -- The look fails at the whitespace in front of the closing delimiter.
            have hx : isSpace x = true := (b.blank x (by simp [hindent])).1
            right
            rw [linesText_nil, List.nil_append, List.cons_append, Cursor.markEnd_mk,
              b.closes.meet_space hx]
            refine ⟨before, b.indent, some (.between before (x :: (indent ++
              (b.heredoc.delimiter ++ after)))), by simp [hindent], .closing begins, ?_⟩
            rw [standing, hindent]
            rfl

/-- A turn at another character inside a line steps over it. -/
theorem textTurn_advances_inside {x : Char} {others : List (List Char)}
    (begins : ¬ BeginsLine before) (rest : b.IsRest before (x :: line))
    (hothers : ∀ other ∈ others, b.IsLine other) :
    b.Advances (before ++ b.unread (x :: line) others) after start
      (textTurn .leading (b.standing before (b.unread (x :: line) others) after start mark)) := by
  right
  refine ⟨before ++ [x], b.unread line others, mark, by simp [unread],
    .inside rest.next hothers, ?_⟩
  exact textTurn_inside begins

/-- A turn at the beginning of a line looks for the delimiter behind all whitespace, and
steps over the character at which it is found to differ, which may be a line feed. -/
theorem textTurn_advances_lines (begins : BeginsLine before)
    (hlines : ∀ line ∈ lines, b.IsLine line) :
    b.Advances (before ++ (linesText lines ++ b.indent)) after start
      (textTurn .leading
        (b.standing before (linesText lines ++ b.indent) after start mark)) := by
  have hstart : (b.standing before (linesText lines ++ b.indent) after start
      mark).cursor.place.atLineStart = true := (Place.atLineStart_between _ _).mpr begins
  have hturn : textTurn .leading
      (b.standing before (linesText lines ++ b.indent) after start mark) =
        afterStart b.heredoc .heredocBody (meetDelimiter b.heredoc.delimiter
          ((Cursor.mk
            (.between before (linesText lines ++ b.indent ++ (b.heredoc.delimiter ++ after)))
            start mark).consumeWhile isSpace).markEnd) := by
    rw [textTurn, if_pos hstart]
    rfl
  rw [hturn]
  rcases looks_behind_space hlines before after start mark with hfound |
    ⟨further, line, others, mark, hwhole, hrest, hothers, hlost⟩
  · left
    rw [hfound]
    rfl
  · right
    obtain ⟨x, text, htext, happroaches⟩ := exists_next hrest hothers
    refine ⟨further ++ [x], text, mark, by simp [← hwhole, htext], happroaches, ?_⟩
    rw [hlost, htext]
    simp [afterStart, standing]

/-- The closing line begins with no character that ends, escapes or expands anything. -/
theorem exists_cons_closing (b : LinedBody) (after : List Char) :
    ∃ x text, b.indent ++ (b.heredoc.delimiter ++ after) = x :: text ∧
      x ≠ '\n' ∧ x ≠ '\x00' ∧ x ≠ '\\' ∧ x ≠ '$' := by
  cases hindent : b.indent with
  | nil =>
      obtain ⟨x, word, hword, -, hfeed, hnul, hslash, hdollar⟩ := b.closes.exists_cons
      exact ⟨x, word ++ after, by simp [hword], hfeed, hnul, hslash, hdollar⟩
  | cons x indent =>
      obtain ⟨hspace, hfeed⟩ := b.blank x (by simp [hindent])
      exact ⟨x, _, rfl, hfeed, ne_of_test (by decide) hspace,
        ne_of_test (by decide) hspace, ne_of_test (by decide) hspace⟩

/-- One turn at any point of the body. -/
theorem bodyTurn_advances {text : List Char} (approaches : b.Approaches before text) :
    b.Advances (before ++ text) after start
      (bodyTurn .leading (b.standing before text after start mark)) := by
  cases approaches with
  | @inside line others rest hothers =>
      cases line with
      | nil =>
          have hturn : bodyTurn .leading (b.standing before (b.unread [] others) after start mark) =
              lineFeedTurn .leading (b.standing before (b.unread [] others) after start mark) := by
            simp [bodyTurn, standing, unread]
          have hfeed := @lineFeedTurn_advances b (before ++ ['\n']) others after start mark
            (b.standing before (b.unread [] others) after start mark) rfl
            (by simp [standing, unread]) (beginsLine_feed before) hothers
          rw [hturn]
          simpa [unread] using hfeed
      | cons x line =>
          obtain ⟨hfeed, hnul, hslash, hraw⟩ := rest.1 x (by simp)
          by_cases hdollar : x = '$'
          · -- In a raw body a dollar sign is text.
            subst hdollar
            right
            refine ⟨before ++ ['$'], b.unread line others, mark, by simp [unread],
              .inside rest.next hothers, ?_⟩
            simp [bodyTurn, dollarTurn, standing, unread, hraw rfl]
          · have hx : (b.standing before (b.unread (x :: line) others) after start
                mark).cursor.lookahead = x := rfl
            rw [bodyTurn_eq_textTurn hx ⟨hfeed, hnul, hslash, hdollar⟩]
            by_cases begins : BeginsLine before
            · rw [← linesText_cons_append]
              refine textTurn_advances_lines begins ?_
              exact List.forall_mem_cons.mpr ⟨⟨rest.1, rest.2 begins⟩, hothers⟩
            · exact textTurn_advances_inside begins rest hothers
  | closing begins =>
      obtain ⟨x, text, htext, solid⟩ := b.exists_cons_closing after
      have hx : (b.standing before b.indent after start mark).cursor.lookahead = x := by
        simp [standing, htext]
      rw [bodyTurn_eq_textTurn hx solid]
      exact @textTurn_advances_lines b before [] after start mark begins (by simp)

/-- The scan of a body goes on from any point of it to the closing delimiter. -/
theorem run_bodyTurn {text : List Char} (approaches : b.Approaches before text) :
    runBody .leading (b.standing before text after start mark) =
      b.closed (before ++ text) after start := by
  refine Turn.run_eq_of_invariant (fun now => ∃ further left mark,
    further ++ left = before ++ text ∧ b.Approaches further left ∧
      now = b.standing further left after start mark) ?_
    ⟨before, text, mark, rfl, approaches, rfl⟩
  rintro _ ⟨further, left, mark, hwhole, happroaches, rfl⟩
  rw [← hwhole]
  rcases bodyTurn_advances happroaches with hdone | ⟨front, ahead, mark, hfront, hahead, hagain⟩
  · left
    exact hdone
  · right
    exact ⟨_, ⟨front, ahead, mark, hfront, hahead, rfl⟩, hagain⟩

/-- The body is read in one part, which ends in front of the closing delimiter. It begins
behind the line feed that ends the line of the arrow. -/
theorem readBody_eq (b : LinedBody) (before after : List Char) :
    readBody .leading b.heredoc
        (.begin (.between before ('\n' :: (b.text ++ (b.heredoc.delimiter ++ after))))) =
      b.closed (before ++ ['\n'] ++ b.text) after
        (.between (before ++ ['\n']) (b.text ++ (b.heredoc.delimiter ++ after))) := by
  have hturn : bodyTurn .leading ⟨b.heredoc,
      .begin (.between before ('\n' :: (b.text ++ (b.heredoc.delimiter ++ after)))), false⟩ =
        lineFeedTurn .leading ⟨b.heredoc,
          .begin (.between before ('\n' :: (b.text ++ (b.heredoc.delimiter ++ after)))),
            false⟩ := by
    simp [bodyTurn, Cursor.begin]
  have hadvances := @lineFeedTurn_advances b (before ++ ['\n']) b.lines after
    (.between (before ++ ['\n']) (b.text ++ (b.heredoc.delimiter ++ after))) none
    ⟨b.heredoc, .begin (.between before ('\n' :: (b.text ++ (b.heredoc.delimiter ++ after)))),
      false⟩ rfl
    (by simp [Cursor.begin, Cursor.ignore, text]) (beginsLine_feed before)
    fun line hline => b.isLine_of_mem hline
  rw [readBody_eq_runBody]
  rcases hadvances with hdone | ⟨further, text, mark, hwhole, happroaches, hagain⟩
  · exact runBody_of_done (hturn.trans hdone)
  · rw [runBody_of_again (hturn.trans hagain), run_bodyTurn happroaches, hwhole,
      LinedBody.text]

end LinedBody

end ContextLexer.Shell
