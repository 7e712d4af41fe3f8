/-
# Plain heredocs

A heredoc is plain if its delimiter is a word without blanks, quotes and escapes, its
body has no expansions or escapes, and no line of the body could be taken for the closing
one. Such a body is made of lines, so it is read in one part.
-/

import ContextLexer.Proofs.Shell.Heredoc.Body
import ContextLexer.Shell.Heredoc.Word

namespace ContextLexer.Shell

/-- A heredoc as it is written, with nothing in its body that a scanner has to act on. -/
structure PlainHeredoc where
  /-- The arrow has a dash, so the closing line may be indented. -/
  dashed : Bool
  /-- The delimiter is written in single quotes, so dollar signs are plain text. -/
  quoted : Bool
  /-- The word that closes the heredoc. -/
  delimiter : List Char
  /-- The lines of the body, without their line feeds. -/
  lines : List (List Char)
  /-- The spaces and tabs in front of the closing delimiter. -/
  indent : List Char
  nonempty : delimiter ≠ []
  solid : ∀ c ∈ delimiter, isSpace c = false ∧ c ≠ '\x00' ∧ c ≠ '\\' ∧ isQuote c = false
  begins : ∀ c ∈ delimiter.head?, c ∉ ['-', '<', '=', '$']
  plain : ∀ line ∈ lines, ∀ c ∈ line,
    c ≠ '\n' ∧ c ≠ '\x00' ∧ c ≠ '\\' ∧ (c = '$' → quoted = true)
  unlike : ∀ line ∈ lines, ¬ delimiter <+: line.dropWhile isSpace
  blank : ∀ c ∈ indent, isBlank c = true
  flush : dashed = false → indent = []

/-- A heredoc with one line, neither quoted nor indented. -/
instance : Inhabited PlainHeredoc where
  default :=
    { dashed := false
      quoted := false
      delimiter := ['A']
      lines := [['x', ' ', 'A']]
      indent := []
      nonempty := by simp
      solid := List.forall_mem_singleton.mpr (by decide)
      begins := by simp
      plain := by simp
      unlike := List.forall_mem_singleton.mpr (by decide)
      blank := by simp
      flush := fun _ => rfl }

/-- The heredoc with nothing in its body that a delimiter closes. -/
def PlainHeredoc.empty (delimiter : List Char) (nonempty : delimiter ≠ [])
    (solid : ∀ c ∈ delimiter, isSpace c = false ∧ c ≠ '\x00' ∧ c ≠ '\\' ∧ isQuote c = false)
    (begins : ∀ c ∈ delimiter.head?, c ∉ ['-', '<', '=', '$']) : PlainHeredoc where
  dashed := false
  quoted := false
  delimiter := delimiter
  lines := []
  indent := []
  nonempty := nonempty
  solid := solid
  begins := begins
  plain := by simp
  unlike := by simp
  blank := by simp
  flush := fun _ => rfl

namespace PlainHeredoc

variable (h : PlainHeredoc)

/-- The context of the heredoc while its body is still to come. -/
def context : Heredoc := ⟨h.quoted, false, h.dashed, h.delimiter⟩

/-- The text of the body, up to the closing delimiter. -/
def body : List Char := linesText h.lines ++ h.indent

/-- The closing delimiter in its line, with a text after it. -/
def close (after : List Char) : List Char := h.indent ++ (h.delimiter ++ after)

/-- The first character of the delimiter begins no whitespace, escape or expansion. -/
theorem exists_delimiter_cons :
    ∃ x word, h.delimiter = x :: word ∧ isSpace x = false ∧ x ≠ '\x00' ∧ x ≠ '\\' ∧
      isQuote x = false ∧ x ∉ ['-', '<', '=', '$'] := by
  obtain ⟨x, word, hword⟩ := List.exists_cons_of_ne_nil h.nonempty
  obtain ⟨hspace, hnul, hslash, hquote⟩ := h.solid x (by simp [hword])
  exact ⟨x, word, hword, hspace, hnul, hslash, hquote, h.begins x (by simp [hword])⟩

theorem closes : CanClose h.delimiter where
  nonempty := h.nonempty
  solid := by
    intro c hc
    obtain ⟨hspace, hnul, -⟩ := h.solid c hc
    exact ⟨(ne_of_test hspace (by decide)).symm, hnul⟩
  begins := by
    intro c hc
    obtain ⟨hspace, -, hslash, -⟩ := h.solid c (List.mem_of_mem_head? hc)
    refine ⟨hspace, hslash, ?_⟩
    rintro rfl
    exact absurd (h.begins '$' hc) (by decide)

/-- The body, which is made of lines. -/
def lined : LinedBody where
  heredoc := h.context
  lines := h.lines
  indent := h.indent
  fresh := rfl
  closes := h.closes
  plain := h.plain
  unlike := h.unlike
  blank := by
    intro c hc
    have hblank := h.blank c hc
    simp only [isBlank, Bool.or_eq_true, decide_eq_true_eq] at hblank
    rcases hblank with rfl | rfl <;> decide

variable {h}

theorem meet_closing (before after : List Char) (start : Place) (mark : Option Place) :
    meetDelimiter h.delimiter ⟨.between before (h.delimiter ++ after), start, mark⟩ =
      (true, ⟨.between (before ++ h.delimiter) after, start, mark⟩) :=
  meetDelimiter_of_next h.closes.solid

end PlainHeredoc

end ContextLexer.Shell
