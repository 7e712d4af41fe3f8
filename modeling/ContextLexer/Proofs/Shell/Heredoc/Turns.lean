/-
# Turns of body scans

Where a scan of a body looks for the delimiter, it keeps the part of it that it meets. Inside
a line it takes one character after the other. A dollar sign that begins no expansion is
taken as well, but it marks the heredoc as started all the same. Where a line begins, the scan
looks for the delimiter, and if it meets nothing of that it takes the character at which it
has looked. So it comes to the end of the line, or to an expansion, in front of which it ends.
-/

import ContextLexer.Proofs.Passage
import ContextLexer.Proofs.Shell.Heredoc.Watch
import ContextLexer.Proofs.Unicode.WhiteSpace
import ContextLexer.Shell.Heredoc.Body

namespace ContextLexer.Shell

/-! ## Meeting the delimiter -/

/-- What is left of a line behind the part of a word with which it begins. -/
def unmet : List Char → List Char → List Char
  | x :: word, y :: line => if x = y then unmet word line else y :: line
  | _, line => line

theorem unmet_eq_nil_iff {word line : List Char} : unmet word line = [] ↔ line <+: word := by
  induction word generalizing line with
  | nil => simp [unmet]
  | cons x word ih =>
      cases line with
      | nil => simp [unmet]
      | cons y line =>
          by_cases hxy : x = y
          · simp [unmet, hxy, ih]
          · simp [unmet, hxy, Ne.symm hxy]

theorem unmet_suffix (word line : List Char) : unmet word line <:+ line := by
  induction word generalizing line with
  | nil => exact List.suffix_rfl
  | cons x word ih =>
      cases line with
      | nil => exact List.suffix_rfl
      | cons y line =>
          rw [unmet]
          split
          · exact (ih line).trans (List.suffix_cons y line)
          · exact List.suffix_rfl

/-- A word of which nothing is met does not begin like the line. -/
theorem not_head?_of_unmet {word line : List Char} (h : unmet word line = line) :
    ∀ c ∈ line.head?, c ∉ word.head? := by
  cases line with
  | nil => simp
  | cons y line =>
      rintro c ⟨⟩ hc
      obtain ⟨word, rfl⟩ := List.head?_eq_some_iff.mp hc
      have hle := (unmet_suffix word line).length_le
      rw [unmet, if_pos rfl] at h
      rw [h, List.length_cons] at hle
      omega

section

variable {before rest : List Char} {start : Place} {mark : Option Place}

/-- A delimiter that comes next is met in full. -/
theorem meetDelimiter_of_next {word : List Char} (solid : ∀ c ∈ word, c ≠ '\n' ∧ c ≠ '\x00') :
    meetDelimiter word ⟨.between before (word ++ rest), start, mark⟩ =
      (true, ⟨.between (before ++ word) rest, start, mark⟩) := by
  induction word generalizing before with
  | nil =>
      simp [meetDelimiter]
  | cons x word ih =>
      obtain ⟨⟨hfeed, hnul⟩, hword⟩ := List.forall_mem_cons.mp solid
      have ih := @ih (before ++ [x]) hword
      simpa [meetDelimiter, hfeed, hnul] using ih

/-- Nothing of a word is met at a character that it does not begin with. -/
theorem meetDelimiter_of_head? {word : List Char} {x : Char} (nonempty : word ≠ [])
    (hx : x ∉ word.head?) :
    meetDelimiter word ⟨.between before (x :: rest), start, mark⟩ =
      (false, ⟨.between before (x :: rest), start, mark⟩) := by
  obtain ⟨y, word, rfl⟩ := List.exists_cons_of_ne_nil nonempty
  have hne : x ≠ y := by
    rintro rfl
    exact hx rfl
  simp [meetDelimiter, hne]

/-- Of a word that does not begin a text only a part is met, if behind the text the line or
the whole text ends, or a character comes that the word does not hold. -/
theorem meetDelimiter_of_unlike {word text : List Char} (unlike : ¬ word <+: text)
    (solid : ∀ c ∈ text, c ≠ '\n' ∧ c ≠ '\x00') :
    ∃ met, text = met ++ unmet word text ∧ ∀ ahead, (∀ c ∈ ahead.head?, c = '\n' ∨ c ∉ word) →
      ∀ before start mark, meetDelimiter word ⟨.between before (text ++ ahead), start, mark⟩ =
        (false, ⟨.between (before ++ met) (unmet word text ++ ahead), start, mark⟩) := by
  induction word generalizing text with
  | nil =>
      exact absurd List.nil_prefix unlike
  | cons x word ih =>
      cases text with
      | nil =>
          refine ⟨[], rfl, fun ahead hstop before start mark => ?_⟩
          cases ahead with
          | nil => simp [meetDelimiter, unmet]
          | cons y ahead =>
              have hy : y = '\n' ∨ y ≠ x := (hstop y rfl).imp id fun hy heq => hy (by simp [heq])
              simp [meetDelimiter, unmet, hy]
      | cons y text =>
          obtain ⟨⟨hfeed, hnul⟩, hsolid⟩ := List.forall_mem_cons.mp solid
          by_cases hxy : x = y
          · subst hxy
            have htext : ¬ word <+: text := fun h =>
              unlike (List.cons_prefix_cons.mpr ⟨rfl, h⟩)
            obtain ⟨met, hsplit, hmeet⟩ := ih htext hsolid
            refine ⟨x :: met, by simpa [unmet] using hsplit, ?_⟩
            intro ahead hstop before start mark
            have hmeet := hmeet ahead (fun c hc => (hstop c hc).imp id fun hmem hword =>
              hmem (List.mem_cons_of_mem x hword)) (before ++ [x]) start mark
            simpa [meetDelimiter, unmet, hnul, hfeed] using hmeet
          · refine ⟨[], by simp [unmet, hxy], ?_⟩
            intro ahead _ before start mark
            simp [meetDelimiter, unmet, hxy, Ne.symm hxy]

end

/-- Whether a delimiter can be found where a line begins: it is part of one line, and begins
with no whitespace, escape or dollar sign. -/
structure CanClose (delimiter : List Char) : Prop where
  nonempty : delimiter ≠ []
  solid : ∀ c ∈ delimiter, c ≠ '\n' ∧ c ≠ '\x00'
  begins : ∀ c ∈ delimiter.head?, isSpace c = false ∧ c ≠ '\\' ∧ c ≠ '$'

namespace CanClose

variable {delimiter : List Char}

theorem exists_cons (closes : CanClose delimiter) :
    ∃ x word, delimiter = x :: word ∧ isSpace x = false ∧ x ≠ '\n' ∧ x ≠ '\x00' ∧ x ≠ '\\' ∧
      x ≠ '$' := by
  obtain ⟨x, word, rfl⟩ := List.exists_cons_of_ne_nil closes.nonempty
  obtain ⟨hfeed, hnul⟩ := closes.solid x (by simp)
  obtain ⟨hspace, hslash, hdollar⟩ := closes.begins x rfl
  exact ⟨x, word, rfl, hspace, hfeed, hnul, hslash, hdollar⟩

theorem isSpace_head? (closes : CanClose delimiter) (after : List Char) :
    ∀ c ∈ (delimiter ++ after).head?, isSpace c = false := by
  obtain ⟨x, word, rfl, hx, -⟩ := closes.exists_cons
  simpa using hx

/-- Nothing of a delimiter is met at whitespace. -/
theorem meet_space (closes : CanClose delimiter) {c : Char} (hc : isSpace c = true)
    (before text : List Char) (start : Place) (mark : Option Place) :
    meetDelimiter delimiter ⟨.between before (c :: text), start, mark⟩ =
      (false, ⟨.between before (c :: text), start, mark⟩) :=
  meetDelimiter_of_head? closes.nonempty fun hhead =>
    absurd (closes.begins c hhead).1 (by simp [hc])

end CanClose

/-! ## Lines -/

namespace PlainHeredoc

variable {before : List Char}

/-- Whether a line begins behind a text. -/
def BeginsLine (before : List Char) : Prop := before = [] ∨ before.getLast? = some '\n'

theorem beginsLine_feed (before : List Char) : BeginsLine (before ++ ['\n']) := by
  simp [BeginsLine]

theorem not_beginsLine {x : Char} (hx : x ≠ '\n') : ¬ BeginsLine (before ++ [x]) := by
  simp [BeginsLine, hx]

end PlainHeredoc

open PlainHeredoc (BeginsLine not_beginsLine)

/-- No line begins behind text without line feeds. -/
theorem not_beginsLine_append {met : List Char} (hne : met ≠ []) (hmet : '\n' ∉ met)
    (before : List Char) : ¬ BeginsLine (before ++ met) := by
  obtain ⟨initial, last, rfl⟩ := (List.eq_nil_or_concat met).resolve_left hne
  have hlast : last ≠ '\n' := fun hlast => hmet (by simp [hlast])
  rw [List.concat_eq_append, ← List.append_assoc]
  exact not_beginsLine hlast

/-- Text without line feeds leads on inside a line. -/
theorem not_beginsLine_of_line {before line : List Char} (begins : ¬ BeginsLine before)
    (hline : '\n' ∉ line) : ¬ BeginsLine (before ++ line) := by
  by_cases hnil : line = []
  · rwa [hnil, List.append_nil]
  · exact not_beginsLine_append hnil hline before

/-- Where no whitespace comes next none is passed over. -/
theorem consumeWhile_nothing {ahead : List Char} (flush : ∀ c ∈ ahead.head?, isSpace c = false)
    (before : List Char) (start : Place) (mark : Option Place) :
    Cursor.consumeWhile isSpace ⟨.between before ahead, start, mark⟩ =
      ⟨.between before ahead, start, mark⟩ := by
  have hnone := @Cursor.consumeWhile_between before [] ahead start mark isSpace (by simp) flush
  simpa using hnone

/-- Whitespace that comes next is passed over with the whitespace behind it. -/
theorem consumeWhile_space {space : List Char} (blank : ∀ c ∈ space, isSpace c = true)
    (before ahead : List Char) (start : Place) (mark : Option Place) :
    Cursor.consumeWhile isSpace ⟨.between before (space ++ ahead), start, mark⟩ =
      Cursor.consumeWhile isSpace ⟨.between (before ++ space) ahead, start, mark⟩ := by
  obtain ⟨more, rest, rfl, hmore, hrest⟩ := exists_run isSpace ahead
  have hspace : ∀ c ∈ space ++ more, isSpace c = true := by
    simpa [or_imp, forall_and] using ⟨blank, hmore⟩
  rw [← List.append_assoc, Cursor.consumeWhile_between hspace hrest,
    Cursor.consumeWhile_between hmore hrest, List.append_assoc]

/-! ## Heredocs behind texts -/

/-- A heredoc when a text has been taken: a dollar sign in that marks it as started. -/
def Heredoc.behind (h : Heredoc) (text : List Char) : Heredoc :=
  { h with started := h.started || decide ('$' ∈ text) }

namespace Heredoc

variable (h : Heredoc) (text : List Char)

@[simp] theorem behind_raw : (h.behind text).raw = h.raw := rfl

@[simp] theorem behind_indented : (h.behind text).indented = h.indented := rfl

@[simp] theorem behind_delimiter : (h.behind text).delimiter = h.delimiter := rfl

@[simp] theorem behind_nil : h.behind [] = h := by simp [behind]

theorem behind_append (more : List Char) :
    h.behind (text ++ more) = (h.behind text).behind more := by
  simp [behind, Bool.or_assoc]

theorem behind_dollar : h.behind ['$'] = h.start := by simp [behind, start]

variable {h text}

theorem behind_of_not_mem (hdollar : '$' ∉ text) : h.behind text = h := by
  simp [behind, hdollar]

end Heredoc

/-! ## Turns -/

variable {part : BodyPart} {h : Heredoc} {before ahead text : List Char} {x : Char}
  {start : Place} {mark : Option Place} {advanced : Bool}

/-- Inside a line a character is taken. -/
theorem textTurn_inside (begins : ¬ BeginsLine before) :
    textTurn part ⟨h, ⟨.between before (x :: ahead), start, mark⟩, advanced⟩ =
      .again ⟨h, ⟨.between (before ++ [x]) ahead, start, mark⟩, true⟩ := by
  have hstart : ¬ (Place.between before (x :: ahead)).atLineStart = true := fun hstart =>
    begins ((Place.atLineStart_between _ _).mp hstart)
  rw [textTurn, if_neg hstart]
  simp

/-- Whether a look for the delimiter, where a line begins with a character, meets nothing. -/
def Settled (h : Heredoc) (before : List Char) (x : Char) : Prop :=
  BeginsLine before → isSpace x = false ∧ x ∉ h.delimiter.head?

/-- What a turn at the beginning of a line makes of its look for the delimiter. -/
def afterStart (h : Heredoc) (kind : Kind) : Bool × Cursor → Turn Body BodyResult
  | (true, c) => .done (h, .part kind c)
  | (false, c) => .again ⟨h, c.consume, true⟩

/-- A turn at a character of the text, where a line begins. -/
theorem textTurn_at_start {now : Body} (hstart : now.cursor.place.atLineStart = true)
    (part : BodyPart) :
    textTurn part now =
      let text := if now.advanced then now.cursor.consumeWhile isSpace
        else now.cursor.ignoreWhile isSpace
      match part with
      | .trailing => afterStart now.heredoc part.middle (meetDelimiter now.heredoc.delimiter text)
      | .leading =>
        afterStart now.heredoc part.final (meetDelimiter now.heredoc.delimiter text.markEnd) := by
  rw [textTurn, if_pos hstart]
  cases part <;> rfl

/-- A character at which nothing of the delimiter is met is taken. -/
theorem textTurn_steps (nonempty : h.delimiter ≠ []) (settled : Settled h before x) :
    ∃ mark', textTurn part ⟨h, ⟨.between before (x :: ahead), start, mark⟩, true⟩ =
      .again ⟨h, ⟨.between (before ++ [x]) ahead, start, mark'⟩, true⟩ := by
  by_cases begins : BeginsLine before
  · obtain ⟨hspace, hhead⟩ := settled begins
    have hstart : (Place.between before (x :: ahead)).atLineStart = true :=
      (Place.atLineStart_between _ _).mpr begins
    have hstay := @consumeWhile_nothing (x :: ahead) (by simpa using hspace) before start mark
    rw [textTurn_at_start hstart, if_pos rfl, hstay]
    cases part with
    | trailing =>
        refine ⟨mark, ?_⟩
        dsimp only
        rw [meetDelimiter_of_head? nonempty hhead]
        simp [afterStart]
    | leading =>
        refine ⟨some (.between before (x :: ahead)), ?_⟩
        dsimp only
        rw [Cursor.markEnd_mk, meetDelimiter_of_head? nonempty hhead]
        simp [afterStart]
  · exact ⟨mark, textTurn_inside begins⟩

/-- A turn at an ordinary character is a turn at a character of the text. -/
theorem bodyTurn_eq_textTurn {now : Body} (hx : now.cursor.lookahead = x)
    (plain : x ≠ '\n' ∧ x ≠ '\x00' ∧ x ≠ '\\' ∧ x ≠ '$') :
    bodyTurn part now = textTurn part now := by
  obtain ⟨hfeed, hnul, hslash, hdollar⟩ := plain
  simp [bodyTurn, hx, hnul, hslash, hdollar, hfeed]

theorem bodyTurn_eq_lineFeedTurn (part : BodyPart) {now : Body}
    (hx : now.cursor.lookahead = '\n') : bodyTurn part now = lineFeedTurn part now := by
  simp [bodyTurn, hx]

/-- What a turn at a line feed makes of its look for the delimiter. -/
def afterFeed (h : Heredoc) (part : BodyPart) : Bool × Cursor → Turn Body BodyResult
  | (true, c) => .done (h, closingLine (if h.started then part.middle else part.final) c)
  | (false, c) => .again ⟨h, c, true⟩

theorem lineFeedTurn_eq {now : Body} {feed : Cursor}
    (hfeed : (if now.advanced then now.cursor.consume else now.cursor.ignore) = feed) :
    lineFeedTurn part now = afterFeed now.heredoc part (meetDelimiter now.heredoc.delimiter
      (if now.heredoc.indented then feed.consumeWhile isSpace else feed).markEnd) := by
  subst hfeed
  rfl

/-- In front of an expansion the scan ends. -/
theorem bodyTurn_expansion (raw : h.raw = false) (expands : Expands ahead) (before : List Char)
    (start : Place) (mark : Option Place) :
    bodyTurn part ⟨h, ⟨.between before ('$' :: ahead), start, mark⟩, true⟩ =
      .done (h.start, .part part.middle
        ⟨.between (before ++ ['$']) ahead, start, some (.between before ('$' :: ahead))⟩) := by
  have hnext : beginsExpansionInBody (Place.between (before ++ ['$']) ahead).lookahead = true :=
    expands
  simp [bodyTurn, dollarTurn, raw, hnext]

/-- A turn inside the text takes the next character. -/
theorem bodyTurn_steps (raw : h.raw = false) (nonempty : h.delimiter ≠ [])
    (plain : x ≠ '\n' ∧ x ≠ '\x00' ∧ x ≠ '\\') (dollar : x = '$' → ¬ Expands ahead)
    (settled : Settled h before x) (part : BodyPart) (start : Place) (mark : Option Place) :
    ∃ mark', bodyTurn part ⟨h, ⟨.between before (x :: ahead), start, mark⟩, true⟩ =
      .again ⟨h.behind [x], ⟨.between (before ++ [x]) ahead, start, mark'⟩, true⟩ := by
  obtain ⟨hfeed, hnul, hslash⟩ := plain
  by_cases hx : x = '$'
  · subst hx
    have hnext : beginsExpansionInBody
        (Place.between (before ++ ['$']) ahead).lookahead = false :=
      Bool.eq_false_iff.mpr (dollar rfl)
    refine ⟨some (.between before ('$' :: ahead)), ?_⟩
    simp [bodyTurn, dollarTurn, raw, hnext, Heredoc.behind_dollar]
  · obtain ⟨mark', hturn⟩ := @textTurn_steps part h before ahead x start mark nonempty settled
    refine ⟨mark', ?_⟩
    rw [bodyTurn_eq_textTurn (by simp) ⟨hfeed, hnul, hslash, hx⟩, hturn,
      Heredoc.behind_of_not_mem (by simpa using Ne.symm hx)]

/-! ## Runs -/

/-- The run of a scan from any point of a body. -/
def runBody (part : BodyPart) (now : Body) : BodyResult :=
  Turn.run (bodyTurn part) (fun now => now.cursor.remaining) (bodyTurn_shrinks part) now

theorem readBody_eq_runBody (part : BodyPart) (h : Heredoc) (c : Cursor) :
    readBody part h c = runBody part ⟨h, c, false⟩ := rfl

theorem runBody_of_again {now later : Body} (hturn : bodyTurn part now = .again later) :
    runBody part now = runBody part later :=
  Turn.run_of_again hturn

theorem runBody_of_done {now : Body} {result : BodyResult}
    (hturn : bodyTurn part now = .done result) : runBody part now = result :=
  Turn.run_of_done hturn

/-- What comes of a scan depends on its next turn only. -/
theorem runBody_congr {now other : Body} (hturn : bodyTurn part now = bodyTurn part other) :
    runBody part now = runBody part other := by
  rw [runBody, Turn.run_eq, hturn, ← Turn.run_eq, runBody]

/-- A scan goes on behind a text of a line in which no expansion begins. -/
theorem run_line (raw : h.raw = false) (nonempty : h.delimiter ≠ [])
    (plain : ∀ c ∈ text, c ≠ '\n' ∧ c ≠ '\x00' ∧ c ≠ '\\')
    (inert : ∀ front back, text = front ++ '$' :: back → ¬ Expands (back ++ ahead))
    (settled : ∀ c ∈ text.head?, Settled h before c) (part : BodyPart) (start : Place)
    (mark : Option Place) :
    ∃ mark', runBody part ⟨h, ⟨.between before (text ++ ahead), start, mark⟩, true⟩ =
      runBody part ⟨h.behind text, ⟨.between (before ++ text) ahead, start, mark'⟩, true⟩ := by
  induction text generalizing h before mark with
  | nil => exact ⟨mark, by simp⟩
  | cons x text ih =>
      obtain ⟨hx, htext⟩ := List.forall_mem_cons.mp plain
      have hdollar : x = '$' → ¬ Expands (text ++ ahead) := by
        rintro rfl
        exact inert [] text rfl
      obtain ⟨mark', hturn⟩ := bodyTurn_steps raw nonempty hx hdollar
        (settled x rfl) part start mark
      -- No line begins behind a character that is no line feed.
      have hsettled : ∀ c ∈ text.head?, Settled (h.behind [x]) (before ++ [x]) c :=
        fun c _ begins => absurd begins (not_beginsLine hx.1)
      obtain ⟨mark', hrun⟩ := @ih (h.behind [x]) (before ++ [x]) raw nonempty htext
        (fun front back hfront => inert (x :: front) back (by simp [hfront])) hsettled mark'
      refine ⟨mark', (runBody_of_again hturn).trans ?_⟩
      rw [hrun, ← Heredoc.behind_append]
      simp

/-- A scan that begins inside a line, at a text without dollar signs, shows it up to the
expansion behind it. -/
theorem readBody_text (raw : h.raw = false) (nonempty : h.delimiter ≠ [])
    (plain : ∀ c ∈ x :: text, c ≠ '$' ∧ c ≠ '\\' ∧ c ≠ '\n' ∧ c ≠ '\x00')
    (begins : ¬ BeginsLine before) (expands : Expands ahead) (part : BodyPart) (start : Place) :
    readBody part h ⟨.between before (x :: (text ++ '$' :: ahead)), start, none⟩ =
      (h.start, .part part.middle ⟨.between (before ++ x :: text ++ ['$']) ahead, start,
        some (.between (before ++ x :: text) ('$' :: ahead))⟩) := by
  obtain ⟨⟨hdollar, hslash, hfeed, hnul⟩, htext⟩ := List.forall_mem_cons.mp plain
  have hdollars : '$' ∉ text := fun hmem => (htext '$' hmem).1 rfl
  have hturn : bodyTurn part ⟨h, ⟨.between before (x :: (text ++ '$' :: ahead)), start, none⟩,
      false⟩ = .again ⟨h, ⟨.between (before ++ [x]) (text ++ '$' :: ahead), start, none⟩, true⟩ :=
    (bodyTurn_eq_textTurn (by simp) ⟨hfeed, hnul, hslash, hdollar⟩).trans (textTurn_inside begins)
  have hplain : ∀ c ∈ text, c ≠ '\n' ∧ c ≠ '\x00' ∧ c ≠ '\\' := fun c hc =>
    ⟨(htext c hc).2.2.1, (htext c hc).2.2.2, (htext c hc).2.1⟩
  have hinert : ∀ front back, text = front ++ '$' :: back → ¬ Expands (back ++ '$' :: ahead) := by
    rintro front back rfl
    exact absurd (by simp) hdollars
  have hsettled : ∀ c ∈ text.head?, Settled h (before ++ [x]) c :=
    fun c _ hbegins => absurd hbegins (not_beginsLine hfeed)
  obtain ⟨mark, hrun⟩ := run_line raw nonempty hplain hinert hsettled part start none
  rw [readBody_eq_runBody, runBody_of_again hturn, hrun, Heredoc.behind_of_not_mem hdollars,
    runBody_of_done (bodyTurn_expansion raw expands _ start mark)]
  simp

end ContextLexer.Shell
