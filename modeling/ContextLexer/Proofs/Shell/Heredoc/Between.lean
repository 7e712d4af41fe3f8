/-
# Texts between two expansions

A call between two expansions that stand in one line looks for the delimiter first, and the
scan for the text goes on from where this look has failed. The text is returned all the same,
because its token begins where the call did. But where the delimiter begins with the whole
text, the look takes all of it: the scan begins at the next expansion, and the call declines.
-/

import ContextLexer.Proofs.Shell.Heredoc.Calls
import Mathlib.Data.Bool.AllAny

namespace ContextLexer.Shell

open PlainHeredoc (BeginsLine)
open Scanner (Sees)

variable {h : Heredoc} {text before ahead : List Char}

/-- Behind the part of the delimiter with which a text begins, the rest of the text is read. -/
theorem sees_text_of_unmet (started : h.started = true) (raw : h.raw = false)
    (nonempty : h.delimiter ≠ []) {met left : List Char} {y : Char}
    (plain : ∀ c ∈ met ++ y :: left, c ≠ '$' ∧ c ≠ '\\' ∧ c ≠ '\n' ∧ c ≠ '\x00')
    (expands : Expands ahead) (begins : ¬ BeginsLine before)
    (misses : meetDelimiter h.delimiter
        (.begin (.between before (met ++ y :: left ++ '$' :: ahead))) =
      (false, ⟨.between (before ++ met) (y :: left ++ '$' :: ahead),
        .between before (met ++ y :: left ++ '$' :: ahead), none⟩)) (s : State) :
    Sees [.call contents] ⟨s.push h, .between before (met ++ y :: left ++ '$' :: ahead)⟩
      [(some (.heredocContent, met ++ y :: left),
        .between (before ++ (met ++ y :: left)) ('$' :: ahead))]
      ⟨s.push h, .between (before ++ (met ++ y :: left)) ('$' :: ahead)⟩ := by
  obtain ⟨hmet, hrest⟩ := List.forall_mem_append.mp plain
  have hbegins : ¬ BeginsLine (before ++ met) :=
    not_beginsLine_of_line begins fun hfeed => (hmet '\n' hfeed).2.2.1 rfl
  have hreads := readBody_text raw nonempty hrest hbegins expands .trailing
    (.between before (met ++ y :: left ++ '$' :: ahead))
  have hsame : h.start = h := by simp [Heredoc.start, ← started]
  rw [hsame] at hreads
  exact sees_of_scan before (met ++ y :: left) ('$' :: ahead)
    (scan_content s started misses hreads) rfl (by simp [Cursor.stop])

/-- Between two expansions in one line a text is returned, and the heredoc is kept, unless the
delimiter begins with the whole text. If it does, the call declines. -/
theorem text_between_expansions (started : h.started = true) (raw : h.raw = false)
    (nonempty : h.delimiter ≠ [])
    (solid : ∀ c ∈ h.delimiter, isSpace c = false ∧ c ≠ '$' ∧ c ≠ '\x00')
    (plain : ∀ c ∈ text, c ≠ '$' ∧ c ≠ '\\' ∧ c ≠ '\n' ∧ c ≠ '\x00')
    (unlike : ¬ h.delimiter <+: text) (expands : Expands ahead)
    (column : 0 < (Place.between before (text ++ '$' :: ahead)).column) (s : State) :
    (¬ text <+: h.delimiter →
      Sees [.call contents] ⟨s.push h, .between before (text ++ '$' :: ahead)⟩
        [(some (.heredocContent, text), .between (before ++ text) ('$' :: ahead))]
        ⟨s.push h, .between (before ++ text) ('$' :: ahead)⟩) ∧
    (text <+: h.delimiter →
      Sees [.call contents] ⟨s.push h, .between before (text ++ '$' :: ahead)⟩
        [(none, .between before (text ++ '$' :: ahead))]
        ⟨s.push h, .between before (text ++ '$' :: ahead)⟩) := by
  have hsolid : ∀ c ∈ text, c ≠ '\n' ∧ c ≠ '\x00' := fun c hc => (plain c hc).2.2
  have hdollar : '$' ∉ h.delimiter := fun hmem => (solid '$' hmem).2.1 rfl
  have hbegins : ¬ BeginsLine before := by
    intro hbegins
    have hstart := (Place.atLineStart_between before (text ++ '$' :: ahead)).mpr hbegins
    rw [Place.atLineStart_iff] at hstart
    omega
  obtain ⟨met, hsplit, hmeet⟩ := meetDelimiter_of_unlike unlike hsolid
  have hmiss := hmeet ('$' :: ahead) (by simpa using hdollar) before
    (.between before (text ++ '$' :: ahead)) none
  rw [← unmet_eq_nil_iff]
  cases hunmet : unmet h.delimiter text with
  | nil =>
      refine ⟨fun hne => absurd rfl hne, fun _ => ?_⟩
      have hreads : readBody .trailing h ⟨.between (before ++ met) ('$' :: ahead),
          .between before (text ++ '$' :: ahead), none⟩ = (h, .nothing) := by
        apply Turn.run_of_done
        simp [bodyTurn, dollarTurn, raw]
      rw [hunmet] at hmiss
      exact .decline (scan_declines s started hmiss hreads)
  | cons y left =>
      refine ⟨fun _ => ?_, fun hnil => absurd hnil (List.cons_ne_nil y left)⟩
      rw [hunmet] at hsplit hmiss
      subst hsplit
      exact sees_text_of_unmet started raw nonempty plain expands hbegins hmiss s

/-- The delimiter is longer than the first text and differs from it at its end; the second text
is a part of the delimiter. -/
theorem text_between_expansions_like_delimiter :
    let h : Heredoc := ⟨false, true, false, ['E', 'O', 'F']⟩
    let s := State.initial.push h
    Sees [.call contents] ⟨s, .between ['$', 'x'] (['E', 'O', ' '] ++ '$' :: ['y'])⟩
      [(some (.heredocContent, ['E', 'O', ' ']),
        .between (['$', 'x'] ++ ['E', 'O', ' ']) ('$' :: ['y']))]
      ⟨s, .between (['$', 'x'] ++ ['E', 'O', ' ']) ('$' :: ['y'])⟩ ∧
    Sees [.call contents] ⟨s, .between ['$', 'x'] (['E', 'O'] ++ '$' :: ['y'])⟩
      [(none, .between ['$', 'x'] (['E', 'O'] ++ '$' :: ['y']))]
      ⟨s, .between ['$', 'x'] (['E', 'O'] ++ '$' :: ['y'])⟩ := by
  intro h s
  have hexpands : Expands ['y'] := rfl
  have hsolid : ∀ c ∈ h.delimiter, isSpace c = false ∧ c ≠ '$' ∧ c ≠ '\x00' :=
    List.all_iff_forall_prop.mp rfl
  have hdiffers := @text_between_expansions h ['E', 'O', ' '] ['$', 'x'] ['y'] rfl rfl
    (by decide) hsolid (by simp) (by decide) hexpands (by decide) State.initial
  have hbegins := @text_between_expansions h ['E', 'O'] ['$', 'x'] ['y'] rfl rfl
    (by decide) hsolid (by simp) (by decide) hexpands (by decide) State.initial
  exact ⟨hdiffers.1 (by decide), hbegins.2 (by decide)⟩

/-- A text with which the delimiter begins is taken for a part of that, and not returned. -/
theorem text_like_delimiter_not_returned :
    let h : Heredoc := ⟨false, true, false, ['E', 'O', 'F']⟩
    let now : Progress State :=
      ⟨State.initial.push h, .between ['a', '$', 'x'] (['E'] ++ '$' :: ['y'])⟩
    ¬ h.delimiter <+: ['E'] ∧ Expands ['y'] ∧ 0 < now.place.column ∧
    ¬ Sees [.call contents] now
      [(some (.heredocContent, ['E']), .between ['a', '$', 'x', 'E'] ['$', 'y'])]
      ⟨State.initial.push h, .between ['a', '$', 'x', 'E'] ['$', 'y']⟩ ∧
    Sees [.call contents] now [(none, now.place)] now := by
  intro h now
  have hsees : Sees [.call contents] now [(none, now.place)] now := rfl
  refine ⟨by decide, rfl, by decide, fun hreturned => ?_, hsees⟩
  exact absurd (congrArg (fun seen => seen.1.map Prod.fst) (hsees.symm.trans hreturned)) (by decide)

end ContextLexer.Shell
