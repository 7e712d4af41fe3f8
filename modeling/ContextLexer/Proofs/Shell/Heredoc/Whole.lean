/-
# Bodies that are returned whole

Where a line begins, a scan of a body passes over whitespace before it looks for the
delimiter, whether or not the arrow had a dash. So a line in which the delimiter comes behind
whitespace closes the heredoc, and what is returned of the body ends in front of the
delimiter there. A body without expansions and escapes is returned whole just in case it has
no such line and its delimiter can be met at all.
-/

import ContextLexer.Proofs.Shell.Heredoc.Calls

namespace ContextLexer.Shell

open Scanner (Sees)

/-! ## The first closing line -/

/-- What is shown of the lines of a body: whole lines up to the first one in which the
delimiter comes behind whitespace, and the whitespace in that one. -/
def shownLines (delimiter : List Char) : List (List Char) → List Char
  | [] => []
  | line :: lines =>
    if delimiter <+: line.dropWhile isSpace then line.takeWhile isSpace
    else line ++ '\n' :: shownLines delimiter lines

variable {delimiter : List Char} {lines : List (List Char)}

/-- All of the lines are shown if the delimiter comes behind whitespace in none of them. -/
theorem shownLines_eq_iff : shownLines delimiter lines = linesText lines ↔
    ∀ line ∈ lines, ¬ delimiter <+: line.dropWhile isSpace := by
  induction lines with
  | nil => simp [shownLines]
  | cons line lines ih =>
      by_cases hline : delimiter <+: line.dropWhile isSpace
      · have hless : (line.takeWhile isSpace).length <
            (line ++ '\n' :: linesText lines).length := by
          have hle := (line.takeWhile_prefix isSpace).length_le
          simp only [List.length_append, List.length_cons]
          omega
        have hne : line.takeWhile isSpace ≠ line ++ '\n' :: linesText lines := fun heq =>
          absurd (congrArg List.length heq) (Nat.ne_of_lt hless)
        simp [shownLines, hline, hne]
      · simp [shownLines, hline, ih]

/-- Behind what is shown of the lines comes the delimiter. -/
theorem exists_shownLines (feedless : ∀ line ∈ lines, '\n' ∉ line) (after : List Char) :
    ∃ whole indent rest, shownLines delimiter lines = linesText whole ++ indent ∧
      linesText lines ++ (delimiter ++ after) =
        linesText whole ++ (indent ++ (delimiter ++ rest)) ∧
      (∀ line ∈ whole, line ∈ lines ∧ ¬ delimiter <+: line.dropWhile isSpace) ∧
      ∀ c ∈ indent, isSpace c = true ∧ c ≠ '\n' := by
  induction lines with
  | nil => exact ⟨[], [], after, rfl, rfl, by simp, by simp⟩
  | cons line lines ih =>
      obtain ⟨hline, hlines⟩ := List.forall_mem_cons.mp feedless
      by_cases hcloses : delimiter <+: line.dropWhile isSpace
      · obtain ⟨tail, htail⟩ := hcloses
        refine ⟨[], line.takeWhile isSpace, tail ++ '\n' :: (linesText lines ++
          (delimiter ++ after)), ?_, ?_, by simp, ?_⟩
        · simp [shownLines, ← htail]
        · calc linesText (line :: lines) ++ (delimiter ++ after)
              = line.takeWhile isSpace ++ line.dropWhile isSpace ++
                  '\n' :: (linesText lines ++ (delimiter ++ after)) := by
                rw [List.takeWhile_append_dropWhile]
                simp
            _ = _ := by simp [← htail]
        · intro c hc
          refine ⟨List.all_eq_true.mp List.all_takeWhile c hc, ?_⟩
          rintro rfl
          exact hline ((line.takeWhile_prefix isSpace).subset hc)
      · obtain ⟨whole, indent, rest, hshown, htext, hwhole, hindent⟩ := ih hlines
        refine ⟨line :: whole, indent, rest, ?_, by simp [htext], ?_, hindent⟩
        · simp [shownLines, hcloses, hshown]
        · refine List.forall_mem_cons.mpr ⟨⟨by simp, hcloses⟩, fun other hother => ?_⟩
          exact ⟨by simp [(hwhole other hother).1], (hwhole other hother).2⟩

/-! ## The call for the body -/

variable {h : Heredoc}

/-- A call for a body without expansions and escapes shows its lines up to the first one in
which the delimiter comes behind whitespace. -/
theorem sees_shownLines (fresh : h.started = false) (closes : CanClose h.delimiter)
    (plain : ∀ line ∈ lines, ∀ c ∈ line,
      c ≠ '\n' ∧ c ≠ '\x00' ∧ c ≠ '\\' ∧ (c = '$' → h.raw = true))
    (s : State) (before after : List Char) :
    ∃ rest, linesText lines ++ (h.delimiter ++ after) = shownLines h.delimiter lines ++ rest ∧
      Sees [.call bodies]
        ⟨s.push h, .between before ('\n' :: (linesText lines ++ (h.delimiter ++ after)))⟩
        [(some (.heredocBody, shownLines h.delimiter lines),
          .between (before ++ '\n' :: shownLines h.delimiter lines) rest)]
        ⟨s.push h, .between (before ++ '\n' :: shownLines h.delimiter lines) rest⟩ := by
  have hfeedless : ∀ line ∈ lines, '\n' ∉ line := fun line hline hfeed =>
    (plain line hline '\n' hfeed).1 rfl
  obtain ⟨whole, indent, rest, hshown, htext, hwhole, hindent⟩ :=
    @exists_shownLines h.delimiter lines hfeedless after
  let b : LinedBody :=
    { heredoc := h
      lines := whole
      indent := indent
      fresh := fresh
      closes := closes
      plain := fun line hline => plain line (hwhole line hline).1
      unlike := fun line hline => (hwhole line hline).2
      blank := hindent }
  have hsees := sees_of_scan (before ++ ['\n']) b.text (h.delimiter ++ rest)
    (b.scan_body s before rest) rfl rfl
  refine ⟨h.delimiter ++ rest, by rw [htext, hshown, List.append_assoc], ?_⟩
  rw [htext, hshown]
  simpa [LinedBody.text] using hsees

/-- A body without expansions and escapes is returned whole, in front of its delimiter, just
in case the delimiter can be met and comes behind whitespace in no line. A dash makes no
difference to that. -/
theorem lined_body_whole_iff (fresh : h.started = false) (nonempty : h.delimiter ≠ [])
    (begins : ∀ c ∈ h.delimiter.head?, isSpace c = false ∧ c ≠ '\\' ∧ c ≠ '$')
    (plain : ∀ line ∈ lines, ∀ c ∈ line,
      c ≠ '\n' ∧ c ≠ '\x00' ∧ c ≠ '\\' ∧ (c = '$' → h.raw = true))
    (s : State) (before after : List Char) :
    Sees [.call bodies]
        ⟨s.push h, .between before ('\n' :: (linesText lines ++ (h.delimiter ++ after)))⟩
        [(some (.heredocBody, linesText lines),
          .between (before ++ '\n' :: linesText lines) (h.delimiter ++ after))]
        ⟨s.push h, .between (before ++ '\n' :: linesText lines) (h.delimiter ++ after)⟩ ↔
      (∀ c ∈ h.delimiter, c ≠ '\n' ∧ c ≠ '\x00') ∧
        ∀ line ∈ lines, ¬ h.delimiter <+: line.dropWhile isSpace := by
  constructor
  · intro hwhole
    obtain ⟨c, hclaim⟩ := hwhole.exists_claim
    have hreads := reads_of_scan fresh hclaim
    have hsolid : ∀ c ∈ h.delimiter, c ≠ '\n' ∧ c ≠ '\x00' :=
      readBody_sealed h _ c (by rw [hreads]) (by rw [hreads]) nonempty
    obtain ⟨rest, -, hshown⟩ :=
      sees_shownLines fresh ⟨nonempty, hsolid, begins⟩ plain s before after
    -- Both of them are what the call shows.
    have htext : shownLines h.delimiter lines = linesText lines := by
      simpa using congrArg (fun seen => seen.1.map fun sight => sight.1.map Prod.snd)
        (hshown.symm.trans hwhole)
    exact ⟨hsolid, shownLines_eq_iff.mp htext⟩
  · rintro ⟨hsolid, hunlike⟩
    obtain ⟨rest, htext, hshown⟩ :=
      sees_shownLines fresh ⟨nonempty, hsolid, begins⟩ plain s before after
    rw [shownLines_eq_iff.mpr hunlike] at htext hshown
    rwa [← List.append_cancel_left htext] at hshown

/-- A heredoc without a dash, and lines that are indented, blank, begin like the delimiter or
end with it. -/
theorem lined_body_whole_mixed :
    let h : Heredoc := ⟨false, false, false, ['E', 'F']⟩
    let lines : List (List Char) := [[' ', 'E'], [], ['\t'], ['x', 'E', 'F']]
    (∀ line ∈ lines, ∀ c ∈ line,
      c ≠ '\n' ∧ c ≠ '\x00' ∧ c ≠ '\\' ∧ (c = '$' → h.raw = true)) ∧
    Sees [.call bodies]
      ⟨State.initial.push h, .between [] ('\n' :: (linesText lines ++ (['E', 'F'] ++ [])))⟩
      [(some (.heredocBody, linesText lines), .between ([] ++ '\n' :: linesText lines)
        (['E', 'F'] ++ []))]
      ⟨State.initial.push h, .between ([] ++ '\n' :: linesText lines) (['E', 'F'] ++ [])⟩ := by
  intro h lines
  have hplain : ∀ line ∈ lines, ∀ c ∈ line,
      c ≠ '\n' ∧ c ≠ '\x00' ∧ c ≠ '\\' ∧ (c = '$' → h.raw = true) := by
    simp [lines]
  have hiff := lined_body_whole_iff (h := h) rfl (by decide) (by rintro _ ⟨⟩; decide) hplain
    State.initial [] []
  exact ⟨hplain, hiff.mpr ⟨by simp [h], by decide⟩⟩

/-- A heredoc without a dash is closed by an indented delimiter, too, and its body is cut off
in front of that. -/
theorem indented_delimiter_closes_without_dash :
    let h : Heredoc := ⟨false, false, false, ['E']⟩
    let now : Progress State :=
      ⟨State.initial.push h, .between [] ('\n' :: (linesText [[' ', 'E']] ++ ['E']))⟩
    ¬ h.delimiter <+: [' ', 'E'] ∧
    Sees [.call bodies] now
      [(some (.heredocBody, [' ']), .between ['\n', ' '] ['E', '\n', 'E'])]
      ⟨State.initial.push h, .between ['\n', ' '] ['E', '\n', 'E']⟩ ∧
    [' '] ≠ linesText [[' ', 'E']] := by
  refine ⟨by decide, ?_, by decide⟩
  rfl

end ContextLexer.Shell
