/-
# Stacked heredocs

A line may open several heredocs, whose bodies follow one after the other. The scanner
keeps the open heredocs with the last opened one innermost, and reads the body of the
innermost one first. So where bodies stand in the reverse order of their openers, every
body is read with its own delimiter, and nothing is left open behind the last of them.
-/

import ContextLexer.Proofs.Shell.Heredoc.Calls
import ContextLexer.Proofs.Shell.Heredoc.Opening

namespace ContextLexer.Shell

open Scanner (Yields)

namespace PlainHeredoc

variable (h : PlainHeredoc)

/-! ## One heredoc -/

/-- What the calls for the opener read. -/
def opening : List (Kind × List Char) := [(h.arrowKind, h.arrow), (.heredocStart, h.word)]

/-- What the calls for the body read. -/
def closing : List (Kind × List Char) := [(.heredocBody, h.body), (.heredocEnd, h.delimiter)]

/-- The opener is read, and the heredoc is innermost then. -/
theorem yields_opening (s : State) (before after : List Char) (gap : Nat) {x : Char}
    (hx : isSpace x = true) :
    Yields [arrows, words]
      ⟨s, .between before (List.replicate gap ' ' ++ (h.opener ++ x :: after))⟩ h.opening
      ⟨s.push h.context,
        .between (before ++ (List.replicate gap ' ' ++ h.opener)) (x :: after)⟩ := by
  have harrow := yields_of_scan (h.scan_arrow s before (x :: after) gap) rfl rfl
  have hword := yields_of_scan
    (h.scan_word s (before ++ List.replicate gap ' ' ++ h.arrow) after hx) rfl rfl
  simpa [opener, opening] using harrow.append hword

theorem scan_body (s : State) (before after : List Char) :
    (s.push h.context).scan bodies
        (.begin (.between before ('\n' :: (h.body ++ (h.delimiter ++ after))))) =
      ⟨s.push h.context, some (.heredocBody,
        ⟨.between (before ++ ['\n'] ++ h.body ++ h.delimiter) after,
          .between (before ++ ['\n']) (h.body ++ (h.delimiter ++ after)),
          some (.between (before ++ ['\n'] ++ h.body) (h.delimiter ++ after))⟩)⟩ :=
  h.lined.scan_body s before after

theorem scan_end (s : State) (before after : List Char) :
    (s.push h.context).scan ends (.begin (.between before (h.delimiter ++ after))) =
      ⟨s, some (.heredocEnd, ⟨.between (before ++ h.delimiter) after,
        .between before (h.delimiter ++ after), none⟩)⟩ :=
  scan_delimiter s h.closes (by simp [ends]) (by simp [ends]) before after

/-- The body is read up to the delimiter, and then the delimiter, which closes the heredoc. -/
theorem yields_closing (s : State) (before after : List Char) :
    Yields [bodies, ends]
      ⟨s.push h.context, .between before ('\n' :: (h.body ++ (h.delimiter ++ after)))⟩ h.closing
      ⟨s, .between (before ++ '\n' :: (h.body ++ h.delimiter)) after⟩ := by
  have hbody := yields_of_scan (h.scan_body s before after) rfl rfl
  have hend := yields_of_scan (h.scan_end s (before ++ ['\n'] ++ h.body) after) rfl rfl
  simpa [closing] using hbody.append hend

end PlainHeredoc

/-! ## A stack of heredocs -/

/-- Heredocs that are opened in one line. -/
structure StackedHeredocs where
  /-- The heredoc that is opened first, at the beginning of the line. -/
  first : PlainHeredoc
  /-- The heredocs opened after it, each with the number of spaces in front of its opener
  besides the one that there has to be. -/
  later : List (Nat × PlainHeredoc)

/-- Openers with spaces in front of them. -/
def openersText (heredocs : List (Nat × PlainHeredoc)) : List Char :=
  heredocs.flatMap fun (gap, h) => List.replicate (gap + 1) ' ' ++ h.opener

/-- Bodies with their closing delimiters, each on the lines behind the text before it. -/
def bodiesText (heredocs : List PlainHeredoc) : List Char :=
  heredocs.flatMap fun h => '\n' :: (h.body ++ h.delimiter)

/-- The state in which heredocs are open, the first of which is innermost. -/
def opened (heredocs : List PlainHeredoc) (s : State) : State :=
  heredocs.foldr (fun h s => s.push h.context) s

theorem yields_openers (heredocs : List (Nat × PlainHeredoc)) (s : State)
    (before after : List Char) {x : Char} (hx : isSpace x = true) :
    Yields (heredocs.flatMap fun _ => [arrows, words])
      ⟨s, .between before (openersText heredocs ++ x :: after)⟩
      (heredocs.flatMap fun entry => entry.2.opening)
      ⟨opened (heredocs.map Prod.snd).reverse s,
        .between (before ++ openersText heredocs) (x :: after)⟩ := by
  induction heredocs generalizing s before with
  | nil =>
      simpa [openersText, opened] using Yields.nothing _
  | cons entry heredocs ih =>
      obtain ⟨gap, h⟩ := entry
      -- Another opener begins with a space, too.
      obtain ⟨y, text, htext, hy⟩ : ∃ y text, openersText heredocs ++ x :: after = y :: text ∧
          isSpace y = true := by
        cases heredocs with
        | nil => exact ⟨x, after, rfl, hx⟩
        | cons entry heredocs => exact ⟨' ', _, rfl, by decide⟩
      have hopening := h.yields_opening s before text (gap + 1) hy
      have ih := ih (s.push h.context) (before ++ (List.replicate (gap + 1) ' ' ++ h.opener))
      rw [← htext] at hopening
      simpa [openersText, opened] using hopening.append ih

theorem yields_bodies (heredocs : List PlainHeredoc) (s : State) (before after : List Char) :
    Yields (heredocs.flatMap fun _ => [bodies, ends])
      ⟨opened heredocs s, .between before (bodiesText heredocs ++ after)⟩
      (heredocs.flatMap PlainHeredoc.closing)
      ⟨s, .between (before ++ bodiesText heredocs) after⟩ := by
  induction heredocs generalizing before with
  | nil =>
      simpa [bodiesText, opened] using Yields.nothing _
  | cons h heredocs ih =>
      have hclosing := h.yields_closing (opened heredocs s) before (bodiesText heredocs ++ after)
      have ih := ih (before ++ '\n' :: (h.body ++ h.delimiter))
      simpa [bodiesText, opened] using hclosing.append ih

namespace StackedHeredocs

variable (stack : StackedHeredocs)

/-- The heredocs in the order of their openers. -/
def heredocs : List PlainHeredoc := stack.first :: stack.later.map Prod.snd

/-- The line with the openers, and after it the bodies in the reverse order. -/
def text : List Char :=
  stack.first.opener ++ openersText stack.later ++ bodiesText stack.heredocs.reverse

/-- The acceptance sets of a host that expects the stack. -/
def calls : List Accepted :=
  (stack.heredocs.flatMap fun _ => [arrows, words]) ++
    stack.heredocs.reverse.flatMap fun _ => [bodies, ends]

/-- What the calls read: the openers first to last, and the bodies last to first. -/
def readings : List (Kind × List Char) :=
  stack.heredocs.flatMap PlainHeredoc.opening ++
    stack.heredocs.reverse.flatMap PlainHeredoc.closing

theorem exists_bodiesText (rest : List Char) :
    ∃ text, bodiesText stack.heredocs.reverse ++ rest = '\n' :: text := by
  cases hlast : stack.heredocs.reverse with
  | nil => simp [heredocs] at hlast
  | cons h others => exact ⟨_, rfl⟩

/-- Stacked heredocs close innermost first: a scanner that has just begun reads every
opener in order, and then every body with its own delimiter in the reverse order, and
nothing is left open behind them. -/
theorem close_innermost_first (rest : List Char) :
    Yields stack.calls ⟨State.initial, .first (stack.text ++ rest)⟩ stack.readings
      ⟨State.initial, .between stack.text rest⟩ := by
  obtain ⟨text, htext⟩ := stack.exists_bodiesText rest
  -- What comes behind the first opener begins with a space or a line feed.
  obtain ⟨x, behind, hbehind, hx⟩ : ∃ x behind,
      openersText stack.later ++ '\n' :: text = x :: behind ∧ isSpace x = true := by
    cases stack.later with
    | nil => exact ⟨'\n', text, rfl, by decide⟩
    | cons entry later => exact ⟨' ', _, rfl, by decide⟩
  have hfirst := stack.first.yields_opening State.initial [] behind 0 hx
  have hlater := yields_openers stack.later (State.initial.push stack.first.context)
    stack.first.opener text (by decide : isSpace '\n' = true)
  have hbodies := yields_bodies stack.heredocs.reverse State.initial
    (stack.first.opener ++ openersText stack.later) rest
  rw [← hbehind] at hfirst
  rw [htext] at hbodies
  have hopen : opened (stack.later.map Prod.snd).reverse
      (State.initial.push stack.first.context) = opened stack.heredocs.reverse State.initial := by
    simp [opened, heredocs]
  rw [hopen] at hlater
  have hwhole := (hfirst.append hlater).append hbodies
  have hsource : stack.text ++ rest =
      stack.first.opener ++ (openersText stack.later ++ '\n' :: text) := by
    simp [StackedHeredocs.text, htext]
  rw [hsource, Place.first_eq_between]
  simpa [calls, readings, heredocs, StackedHeredocs.text, List.flatMap_map] using hwhole

example : StackedHeredocs.text ⟨default, [(0, default)]⟩ =
    "<<A <<A\nx A\nA\nx A\nA".toList := by decide

end StackedHeredocs

end ContextLexer.Shell
