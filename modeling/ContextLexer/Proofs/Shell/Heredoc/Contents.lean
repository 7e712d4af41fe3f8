/-
# Calls behind expansions

A call behind an expansion asks for the closing delimiter or for text. It looks for the
delimiter first and scans on from where that look has failed. So a text may not be taken for
a part of the delimiter, and no part of the delimiter that is met in a line may reach into an
expansion. Then the whole text is read, but for a line feed at its beginning.
-/

import ContextLexer.Proofs.Shell.Heredoc.Calls
import ContextLexer.Proofs.Shell.Heredoc.Parts

namespace ContextLexer.Shell

open PlainHeredoc (BeginsLine)
open Scanner (Sees)

/-- What a call behind an expansion reads of a text: nothing if there is none, and otherwise
the text without a line feed at its beginning. -/
def reading : List Char → Option (Kind × List Char)
  | [] => none
  | '\n' :: text => some (.heredocContent, text)
  | text => some (.heredocContent, text)

theorem reading_cons {x : Char} (hx : x ≠ '\n') (text : List Char) :
    reading (x :: text) = some (.heredocContent, x :: text) := by
  simp [reading, hx]

namespace InterpolatedHeredoc

variable {h : InterpolatedHeredoc} {s : State} {shown rest before text : List Char}

/-! ## Calls -/

theorem scan_closing (h : InterpolatedHeredoc) (s : State) (before after : List Char) :
    (s.push (h.context true)).scan contents (.begin (.between before (h.delimiter ++ after))) =
      ⟨s, some (.heredocEnd, ⟨.between (before ++ h.delimiter) after,
        .between before (h.delimiter ++ after), none⟩)⟩ :=
  scan_delimiter s h.bare.closes (by simp [contents]) (by simp [contents]) before after

/-! ## One text -/

/-- A text that the calls behind an expansion read whole. -/
structure Readable (h : InterpolatedHeredoc) (text more : List Char) : Prop
    extends h.Fits text more where
  unlike : ¬ h.delimiter <+: text
  distinct : firstLine text ≠ [] → firstLine text <+: h.delimiter → firstLine text = h.delimiter

/-- Behind an expansion, the look for the delimiter ends inside the first line. -/
theorem look_first {x : Char} {more : List Char} (readable : h.Readable (x :: text) more)
    (hx : x ≠ '\n') :
    ∃ met y left, x :: text = met ++ y :: left ∧ y ≠ '\n' ∧ '\n' ∉ met ∧
      ∀ before start mark,
        meetDelimiter h.delimiter ⟨.between before (x :: text ++ more), start, mark⟩ =
          (false, ⟨.between (before ++ met) (y :: left ++ more), start, mark⟩) := by
  have hline : firstLine (x :: text) <+: x :: text := List.takeWhile_prefix _
  have hne : firstLine (x :: text) ≠ [] := by simp [firstLine, hx]
  have hnot : ¬ firstLine (x :: text) <+: h.delimiter := fun hprefix =>
    readable.unlike (readable.distinct hne hprefix ▸ hline)
  have hmore : firstLine (x :: text) <+: x :: text ++ more :=
    hline.trans (List.prefix_append _ _)
  have hunlike : ¬ h.delimiter <+: x :: text ++ more := by
    intro hprefix
    rcases List.prefix_or_prefix_of_prefix hprefix hmore with hinside | hbehind
    · exact readable.unlike (hinside.trans hline)
    · exact hnot hbehind
  obtain ⟨met, left, hsplit, hword, hfeed, -, hmeet⟩ := meetDelimiter_of_not_next hunlike
  have hmet : met <+: x :: text ++ more := ⟨left, hsplit.symm⟩
  obtain ⟨tail, htail⟩ : met <+: firstLine (x :: text) :=
    (List.prefix_or_prefix_of_prefix hmet hmore).resolve_right fun hbehind =>
      hnot (hbehind.trans hword)
  cases tail with
  | nil =>
      rw [List.append_nil] at htail
      exact absurd (htail ▸ hword) hnot
  | cons y tail =>
      have hy : y ∈ firstLine (x :: text) := by simp [← htail]
      have hyfeed : y ≠ '\n' := by
        simpa using List.all_eq_true.mp List.all_takeWhile y hy
      obtain ⟨others, hothers⟩ := hline
      have htext : x :: text = met ++ y :: (tail ++ others) := by
        rw [← hothers, ← htail]
        simp
      refine ⟨met, y, tail ++ others, htext, hyfeed, hfeed, ?_⟩
      intro before start mark
      have hleft : left = y :: (tail ++ others) ++ more := by
        rw [htext, List.append_assoc] at hsplit
        exact (List.append_cancel_left hsplit).symm
      rw [hmeet, hleft]

/-- A call behind an expansion reads the text in front of what comes next. -/
theorem sees_text (sequel : h.Sequel true shown rest) (readable : h.Readable text (shown ++ rest))
    (begins : ¬ BeginsLine before) (s : State) :
    Sees [.call contents]
      ⟨s.push (h.context true), .between before (text ++ (shown ++ rest))⟩
      [(reading (text ++ shown), .between (before ++ (text ++ shown)) rest)]
      ⟨s.push (h.context true), .between (before ++ (text ++ shown)) rest⟩ := by
  cases text with
  | nil =>
      cases sequel with
      | @expansion x expands rest =>
          have hmiss := meet_nothing h.dollar_not_head before (x :: rest)
            (.between before ('$' :: x :: rest)) none
          have hscan := scan_declines s rfl hmiss (h.readBody_at_dollar before (x :: rest))
          simpa [reading] using Sees.decline hscan
      | closing _ after =>
          have hmiss := meet_nothing h.feed_not_head before (h.delimiter ++ after)
            (.between before ('\n' :: (h.delimiter ++ after))) none
          obtain ⟨e, hstart, hstop, hreads⟩ := h.readBody_at_closing before after
          have hscan := scan_content s rfl hmiss hreads
          have hsees := sees_of_scan _ [] _ hscan hstart (by simpa using hstop)
          simpa [reading] using hsees
  | cons x text =>
      by_cases hx : x = '\n'
      · subst hx
        have hmiss := meet_nothing h.feed_not_head before (text ++ (shown ++ rest))
          (.between before ('\n' :: (text ++ (shown ++ rest)))) none
        obtain ⟨e, hstart, hstop, hreads⟩ :=
          readBody_behind_feed sequel .trailing readable.toFits before
        have hscan := scan_content s rfl hmiss hreads
        have hsees := sees_of_scan (before ++ ['\n']) (text ++ shown) rest hscan
          (by simpa using hstart) (by simpa using hstop)
        simpa [reading] using hsees
      · obtain ⟨met, y, left, htext, hy, hmet, hmiss⟩ := look_first readable hx
        have hline : ¬ BeginsLine (before ++ met) := not_beginsLine_of_line begins hmet
        have hfits : h.Fits (met ++ y :: left) (shown ++ rest) := htext ▸ readable.toFits
        obtain ⟨e, hstart, hstop, hreads⟩ := readBody_inside_line sequel .trailing
          ⟨hfits.suffix met, fun hbegins => absurd hbegins hline⟩ hy hline
          (.between before (x :: text ++ (shown ++ rest)))
        have hscan := scan_content s rfl (hmiss before _ none) hreads
        have hsees := sees_of_scan before (x :: text ++ shown) rest hscan
          (by simpa using hstart) (by simpa [htext] using hstop)
        simpa [reading_cons hx] using hsees

end InterpolatedHeredoc

end ContextLexer.Shell
