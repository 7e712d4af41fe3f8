/-
# Opening a plain heredoc

An opener is an arrow with the delimiter word right behind it. A call that accepts arrows
ignores the spaces in front of it, and opens a heredoc inside the others. A call that
accepts the word then reads it up to the whitespace or the quote behind it, and leaves the
heredoc as it has to be for its body.
-/

import ContextLexer.Proofs.Shell.Heredoc.Plain
import ContextLexer.Proofs.Shell.Heredoc.Quoting
import ContextLexer.Proofs.Shell.Name

namespace ContextLexer.Shell

/-! ## The arrow -/

/-- The host accepts the arrows of heredocs. -/
def arrows : Accepted := .ofList [.arrow, .arrowDash]

theorem namesOnly_arrows : NamesOnly arrows := by
  simp [NamesOnly, arrows]

namespace PlainHeredoc

variable (h : PlainHeredoc)

/-- The kind of the arrow. -/
def arrowKind : Kind := if h.dashed then .arrowDash else .arrow

/-- The arrow as it is written. -/
def arrow : List Char := if h.dashed then ['<', '<', '-'] else ['<', '<']

/-- The delimiter word as it is written. -/
def word : List Char := if h.quoted then '\'' :: h.delimiter ++ ['\''] else h.delimiter

/-- The arrow with the word behind it. -/
def opener : List Char := h.arrow ++ h.word

/-- The first character of the word tells whether it is quoted, and does not make the arrow
another operator. -/
theorem exists_cons_word :
    ∃ x text, h.word = x :: text ∧ isSpace x = false ∧
      (isQuote x || decide (x = '\\')) = h.quoted ∧ x ∉ ['-', '<', '='] := by
  obtain ⟨x, text, hword, hspace, -, hslash, hquote, hbegins⟩ := h.exists_delimiter_cons
  cases hquoted : h.quoted with
  | false =>
      refine ⟨x, text, by simp [word, hquoted, hword], hspace, by simp [hquote, hslash], ?_⟩
      simp only [List.mem_cons, not_or] at hbegins ⊢
      exact ⟨hbegins.1, hbegins.2.1, hbegins.2.2.1, List.not_mem_nil⟩
  | true =>
      exact ⟨'\'', h.delimiter ++ ['\''], by simp [word, hquoted], by decide, by decide,
        by decide⟩

theorem exists_cons_arrow : ∃ text, h.arrow = '<' :: text := by
  cases hdashed : h.dashed <;> simp [arrow, hdashed]

theorem readArrow_eq (before after : List Char) (start : Place) :
    readArrow arrows ⟨.between before (h.arrow ++ (h.word ++ after)), start, none⟩ =
      .claim h.arrowKind ⟨.between (before ++ h.arrow) (h.word ++ after), start, none⟩ := by
  obtain ⟨x, text, hword, -, -, hx⟩ := h.exists_cons_word
  cases hdashed : h.dashed with
  | false =>
      simp only [List.mem_cons, not_or] at hx
      simp [readArrow, arrow, arrowKind, hdashed, hword, hx]
  | true =>
      simp [readArrow, arrow, arrowKind, hdashed, arrows, Ruling.claimIf]

theorem resolveName_arrow (before after : List Char) (gap : Nat) :
    resolveName arrows
        (.begin (.between before (List.replicate gap ' ' ++ (h.arrow ++ (h.word ++ after))))) =
      .claim h.arrowKind
        ⟨.between (before ++ List.replicate gap ' ' ++ h.arrow) (h.word ++ after),
          .between (before ++ List.replicate gap ' ') (h.arrow ++ (h.word ++ after)), none⟩ := by
  obtain ⟨text, harrow⟩ := h.exists_cons_arrow
  have hspaces : Filler arrows (List.replicate gap ' ') :=
    .of_blank fun c hc => by rw [List.eq_of_mem_replicate hc]; rfl
  have hstops : ∀ c ∈ (h.arrow ++ (h.word ++ after)).head?,
      isNameFiller arrows c = false ∧ c ≠ '\\' := by
    rw [harrow]
    rintro _ ⟨⟩
    simp [isNameFiller]
  rw [namesOnly_arrows.resolveName_between hspaces hstops]
  dsimp only
  rw [if_neg (by simp [harrow, isSpecialParameter]), readArrowOrName,
    if_pos (by simp [harrow, arrows])]
  exact h.readArrow_eq _ after _

/-- A call that accepts arrows opens the heredoc. -/
theorem scan_arrow (s : State) (before after : List Char) (gap : Nat) :
    s.scan arrows
        (.begin (.between before (List.replicate gap ' ' ++ (h.arrow ++ (h.word ++ after))))) =
      ⟨s.push (.opened h.dashed), some (h.arrowKind,
        ⟨.between (before ++ List.replicate gap ' ' ++ h.arrow) (h.word ++ after),
          .between (before ++ List.replicate gap ' ') (h.arrow ++ (h.word ++ after)), none⟩)⟩ := by
  rw [namesOnly_arrows.scan_eq ⟨.arrow, by simp [arrows], by decide⟩, h.resolveName_arrow]
  cases hdashed : h.dashed <;>
    simp [State.afterName, Ruling.counted, arrowKind, hdashed, arrows, Kind.isEmittable]

/-! ## The word -/

/-- The word is read without its quotes. -/
theorem readsAs_word {x : Char} (hx : isSpace x = true) (after : List Char) :
    ReadsAs h.word (x :: after) h.delimiter := by
  have hnul : '\x00' ∉ h.delimiter := fun hnul => (h.solid _ hnul).2.1 rfl
  cases hquoted : h.quoted with
  | false =>
      have hplain : ∀ c ∈ h.delimiter, isSpecialBare c = false ∧ isQuote c = false := by
        intro c hc
        obtain ⟨hspace, -, hslash, hquote⟩ := h.solid c hc
        exact ⟨by simp [isSpecialBare, hspace, hslash], hquote⟩
      have hreads : ReadsAs (bareWord h.delimiter) (x :: after) h.delimiter :=
        readsAs_bareWord h.nonempty hnul (by simpa using hx)
      rw [bareWord_eq_self hplain] at hreads
      simpa [word, hquoted] using hreads
  | true =>
      have hplain : ∀ c ∈ h.delimiter, isSpecialQuoted '\'' c = false := by
        intro c hc
        obtain ⟨hspace, -, hslash, hquote⟩ := h.solid c hc
        have hreturn : c ≠ '\r' := (ne_of_test hspace (by decide)).symm
        have hfeed : c ≠ '\n' := (ne_of_test hspace (by decide)).symm
        simp only [isQuote, Bool.or_eq_false_iff, decide_eq_false_iff_not] at hquote
        simp [isSpecialQuoted, hslash, hquote.1, hreturn, hfeed]
      have hreads := readsAs_quotedWord (q := '\'') rfl h.nonempty hnul (x :: after)
      rw [quotedWord, escape_eq_self hplain] at hreads
      simpa [word, hquoted] using hreads

/-- A call that accepts the word names the innermost heredoc. -/
theorem scan_word (s : State) (before after : List Char) {x : Char} (hx : isSpace x = true) :
    (s.push (.opened h.dashed)).scan words (.begin (.between before (h.word ++ x :: after))) =
      ⟨s.push h.context, some (.heredocStart, ⟨.between (before ++ h.word) (x :: after),
        .between before (h.word ++ x :: after), none⟩)⟩ := by
  obtain ⟨y, text, hword, hy, hraw, -⟩ := h.exists_cons_word
  have hscan := @scan_writtenWord _ _ _ _ [] _ (h.readsAs_word hx after) hword hy (by simp) s
    (.opened h.dashed) before
  rw [beginsRaw, hraw, List.nil_append, List.append_nil] at hscan
  exact hscan

end PlainHeredoc

end ContextLexer.Shell
