/-
# What a body scan comes to

A scan of a body runs through any number of turns, but there are few ways in which it
ends, and few things that it does to its heredoc on the way. A dollar sign in a body that
is not raw marks the heredoc as started; the end of the text clears it; nothing else
happens to it. Later facts about body scans use only the list of these endings.
-/

import ContextLexer.Proofs.Passage
import ContextLexer.Shell.Heredoc.Body

namespace ContextLexer.Shell

/-- What becomes of a heredoc while its body is scanned: a dollar sign marks it as started,
unless it is raw. -/
inductive Heredoc.Marked (h : Heredoc) : Heredoc → Prop
  | same : Marked h h
  | started (raw : h.raw = false) : Marked h h.start

/-- The endings of a body scan with a certain text ahead: the heredoc afterwards, and what
was found. -/
inductive Outcome (part : BodyPart) (h : Heredoc) (ahead : List Char) : Heredoc → Finding → Prop
  /-- The end of the text cuts the body off. -/
  | cut {c : Cursor} (ended : c.atEnd = true) : Outcome part h ahead .cleared (.part part.final c)
  /-- An expansion, or another scan, goes on behind the part. -/
  | middle {h' : Heredoc} {c : Cursor} (marked : h.Marked h') :
      Outcome part h ahead h' (.part part.middle c)
  /-- The part ends at the closing line, and the heredoc is left for the delimiter. -/
  | last {h' : Heredoc} {c : Cursor} (leading : part = .leading) (marked : h.Marked h') :
      Outcome part h ahead h' (.part part.final c)
  /-- The part ends at the closing line, and nothing is left of the heredoc. -/
  | closing {h' : Heredoc} {c : Cursor} (trailing : part = .trailing) (marked : h.Marked h')
      (fresh : h'.started = false) : Outcome part h ahead h' (.closing part.final c)
  /-- There is nothing to return at the place where the scan begins. -/
  | nothing : Outcome part h ahead h .nothing
  /-- A NUL in the body makes the scan give up behind a dollar sign. -/
  | lost {h' : Heredoc} (marked : h.Marked h') (nul : '\x00' ∈ ahead) :
      Outcome part h ahead h' .nothing

/-- A result of a body scan that is one of its endings. -/
def Ends (part : BodyPart) (h : Heredoc) (ahead : List Char) (result : BodyResult) : Prop :=
  Outcome part h ahead result.1 result.2

/-- What holds between the turns of a body scan: the heredoc is at most marked, and only
after something was stepped over. -/
structure UnderWay (h : Heredoc) (ahead : List Char) (now : Body) : Prop where
  marked : h.Marked now.heredoc
  fresh : now.advanced = false → now.heredoc = h
  onward : now.cursor.place.ahead <:+ ahead

variable {part : BodyPart} {h : Heredoc} {ahead : List Char} {now : Body}

theorem Heredoc.Marked.start {h' : Heredoc} (marked : h.Marked h') (raw : h'.raw = false) :
    h.Marked h'.start := by
  cases marked with
  | same => exact .started raw
  | started hraw => exact .started hraw

theorem ahead_meetDelimiter_suffix (word : List Char) (c : Cursor) :
    (meetDelimiter word c).2.place.ahead <:+ c.place.ahead := by
  induction word generalizing c with
  | nil => exact List.suffix_rfl
  | cons x word ih =>
      rw [meetDelimiter]
      split
      · exact List.suffix_rfl
      · exact (ih _).trans c.ahead_consume_suffix

theorem UnderWay.again {h' : Heredoc} {c : Cursor} (marked : h.Marked h')
    (onward : c.place.ahead <:+ ahead) : UnderWay h ahead ⟨h', c, true⟩ :=
  ⟨marked, nofun, onward⟩

theorem dollarTurn_leadsTo (inside : UnderWay h ahead now) :
    (dollarTurn part now).LeadsTo (UnderWay h ahead) (Ends part h ahead) := by
  have hnext := now.cursor.ahead_consume_suffix.trans inside.onward
  rw [dollarTurn]
  dsimp only
  split
  · exact .again inside.marked hnext
  · next hraw =>
    have hstart := inside.marked.start (by simpa using hraw)
    split
    · split
      · exact .middle hstart
      · exact .again hstart hnext
    · next hadvanced =>
      split
      · exact .middle hstart
      · have hfresh : now.heredoc = h := inside.fresh (by simpa using hadvanced)
        rw [hfresh]
        exact .nothing

theorem lineFeedTurn_leadsTo (inside : UnderWay h ahead now) :
    (lineFeedTurn part now).LeadsTo (UnderWay h ahead) (Ends part h ahead) := by
  rw [lineFeedTurn]
  generalize hline : (if now.advanced then now.cursor.consume else now.cursor.ignore) = line
  generalize htext :
    (if now.heredoc.indented then line.consumeWhile isSpace else line) = text
  have honward : text.place.ahead <:+ ahead := by
    have hline : line.place.ahead <:+ now.cursor.place.ahead := by
      subst hline
      split
      · exact now.cursor.ahead_consume_suffix
      · exact now.cursor.ahead_ignore_suffix
    have htext : text.place.ahead <:+ line.place.ahead := by
      subst htext
      split
      · exact line.ahead_consumeWhile_suffix _
      · exact List.suffix_rfl
    exact htext.trans (hline.trans inside.onward)
  have hlook := ahead_meetDelimiter_suffix now.heredoc.delimiter text.markEnd
  split
  · next after _ =>
    rw [Turn.leadsTo_done]
    split
    · cases part <;> exact .middle inside.marked
    · next hstarted =>
      cases part with
      | leading => exact .last rfl inside.marked
      | trailing => exact .closing rfl inside.marked (by simpa using hstarted)
  · next after hafter =>
    rw [hafter] at hlook
    exact .again inside.marked (hlook.trans honward)

theorem textTurn_leadsTo (inside : UnderWay h ahead now) :
    (textTurn part now).LeadsTo (UnderWay h ahead) (Ends part h ahead) := by
  rw [textTurn]
  dsimp only
  split
  · generalize htext : (if now.advanced then now.cursor.consumeWhile isSpace
      else now.cursor.ignoreWhile isSpace) = text
    have honward : text.place.ahead <:+ ahead := by
      refine List.IsSuffix.trans ?_ inside.onward
      subst htext
      split
      · exact now.cursor.ahead_consumeWhile_suffix _
      · exact now.cursor.ahead_ignoreWhile_suffix _
    cases part with
    | trailing =>
        have hlook := ahead_meetDelimiter_suffix now.heredoc.delimiter text
        dsimp only
        split
        · exact .middle inside.marked
        · next after hafter =>
          rw [hafter] at hlook
          exact .again inside.marked
            (after.ahead_consume_suffix.trans (hlook.trans honward))
    | leading =>
        have hlook := ahead_meetDelimiter_suffix now.heredoc.delimiter text.markEnd
        dsimp only
        split
        · exact .last rfl inside.marked
        · next after hafter =>
          rw [hafter] at hlook
          exact .again inside.marked
            (after.ahead_consume_suffix.trans (hlook.trans honward))
  · exact .again inside.marked (now.cursor.ahead_consume_suffix.trans inside.onward)

theorem bodyTurn_leadsTo (inside : UnderWay h ahead now) :
    (bodyTurn part now).LeadsTo (UnderWay h ahead) (Ends part h ahead) := by
  rw [bodyTurn]
  split
  · next hnul =>
    split
    · next hover => exact .cut hover.1
    · next hnot =>
      by_cases hadvanced : now.advanced = true
      · -- The text does not end here, so the NUL that comes next is a character of it.
        have hmem : '\x00' ∈ now.cursor.place.ahead := by
          have hnot : now.cursor.atEnd = false := by simpa [hadvanced] using hnot
          obtain ⟨x, rest, hahead⟩ := List.exists_cons_of_ne_nil
            (l := now.cursor.place.ahead) (by simpa [Cursor.atEnd, Place.atEnd] using hnot)
          have hx : x = '\x00' := by
            simpa [Cursor.lookahead, Place.lookahead, hahead] using hnul
          simp [hahead, hx]
        exact .lost inside.marked (inside.onward.mem hmem)
      · have hfresh : now.heredoc = h := inside.fresh (by simpa using hadvanced)
        rw [hfresh]
        exact .nothing
  split
  · exact .again inside.marked (now.cursor.consume.ahead_consume_suffix.trans
      (now.cursor.ahead_consume_suffix.trans inside.onward))
  split
  · exact dollarTurn_leadsTo inside
  split
  · exact lineFeedTurn_leadsTo inside
  · exact textTurn_leadsTo inside

/-- Every body scan comes to one of the endings. -/
theorem readBody_ends (part : BodyPart) (h : Heredoc) (c : Cursor) :
    Ends part h c.place.ahead (readBody part h c) :=
  Turn.run_of_leadsTo (UnderWay h c.place.ahead) (fun _ => bodyTurn_leadsTo)
    ⟨.same, fun _ => rfl, List.suffix_rfl⟩

/-! ## Closing delimiters -/

/-- A delimiter that is met in full holds neither a line feed nor a NUL. -/
theorem solid_of_meetDelimiter {word : List Char} {c : Cursor}
    (met : (meetDelimiter word c).1 = true) : ∀ x ∈ word, x ≠ '\n' ∧ x ≠ '\x00' := by
  induction word generalizing c with
  | nil => simp
  | cons x word ih =>
      rw [meetDelimiter] at met
      split at met
      · cases met
      · next hnext =>
        obtain ⟨hnul, hfeed, rfl⟩ : c.lookahead ≠ '\x00' ∧ c.lookahead ≠ '\n' ∧
            c.lookahead = x := by simpa using hnext
        exact List.forall_mem_cons.mpr ⟨⟨hfeed, hnul⟩, ih met⟩

/-- Whether a scan that returns a whole body and keeps its heredoc has met the delimiter. -/
def Sealed (delimiter : List Char) (result : BodyResult) : Prop :=
  ∀ c, result.2 = .part .heredocBody c → result.1.delimiter = delimiter → delimiter ≠ [] →
    ∀ x ∈ delimiter, x ≠ '\n' ∧ x ≠ '\x00'

theorem Sealed.of_meet {delimiter : List Char} {result : BodyResult} {c d : Cursor}
    (met : meetDelimiter delimiter c = (true, d)) : Sealed delimiter result :=
  fun _ _ _ _ => solid_of_meetDelimiter (c := c) (by rw [met])

theorem bodyTurn_sealed (now : Body) :
    (bodyTurn .leading now).LeadsTo (fun later => later.heredoc.delimiter = now.heredoc.delimiter)
      (Sealed now.heredoc.delimiter) := by
  rw [bodyTurn]
  split
  · split
    · intro c _ hdelimiter hne
      exact absurd hdelimiter.symm hne
    · intro c hfound
      cases hfound
  split
  · rfl
  split
  · rw [dollarTurn]
    dsimp only
    split
    · rfl
    · split <;> split
      · intro c hfound
        cases hfound
      · rfl
      · intro c hfound
        cases hfound
      · intro c hfound
        cases hfound
  split
  · rw [lineFeedTurn]
    split
    · next hmet => exact .of_meet hmet
    · rfl
  · rw [textTurn]
    dsimp only
    split
    · split
      · next hmet => exact .of_meet hmet
      · rfl
    · rfl

/-- A delimiter that closes a body holds neither a line feed nor a NUL. -/
theorem readBody_sealed (h : Heredoc) (c : Cursor) :
    Sealed h.delimiter (readBody .leading h c) := by
  refine Turn.run_of_leadsTo (fun now => now.heredoc.delimiter = h.delimiter) ?_ rfl
  intro now hnow
  rw [← hnow]
  exact bodyTurn_sealed now

end ContextLexer.Shell
