/-
# Delimiter words

Every word can be the delimiter of a heredoc, if it is written so that reading takes the
quotes and escapes off again: between quotes, with a backslash in front of whatever would end
the word there, or without quotes, with a backslash in front of whitespace and of a quote that
comes first. Only NUL can be written in neither way. Reading goes on behind every part of a
word in which all is escaped that has to be, so it comes to the end of the word with all of
its characters.
-/

import ContextLexer.Proofs.Shell.Heredoc.Calls
import ContextLexer.Shell.Heredoc.Word

namespace ContextLexer.Shell

open Scanner (Sees)

/-- The host accepts the word behind an arrow. -/
def words : Accepted := .ofList [.heredocStart]

/-! ## Written words -/

/-- A word with a backslash in front of each character of a class. -/
def escape (special : Char → Bool) (word : List Char) : List Char :=
  word.flatMap fun c => if special c then ['\\', c] else [c]

/-- Whether a character has to be escaped between quotes. -/
def isSpecialQuoted (quote c : Char) : Bool := c = '\\' || c = quote || c = '\r' || c = '\n'

/-- Whether a character has to be escaped where there are no quotes. -/
def isSpecialBare (c : Char) : Bool := c = '\\' || isSpace c

/-- A word between quotes. -/
def quotedWord (quote : Char) (word : List Char) : List Char :=
  quote :: escape (isSpecialQuoted quote) word ++ [quote]

/-- A word without quotes around it. A quote has to be escaped only where the word begins. -/
def bareWord : List Char → List Char
  | [] => []
  | c :: word =>
    escape (fun c => isSpecialBare c || isQuote c) [c] ++ escape isSpecialBare word

section

variable {special : Char → Bool} {word : List Char} {x : Char}

@[simp] theorem escape_nil : escape special [] = [] := rfl

theorem escape_cons_special (hx : special x = true) :
    escape special (x :: word) = '\\' :: x :: escape special word := by
  simp [escape, hx]

theorem escape_cons_other (hx : special x = false) :
    escape special (x :: word) = x :: escape special word := by
  simp [escape, hx]

/-- A word without special characters is written as it is. -/
theorem escape_eq_self (other : ∀ c ∈ word, special c = false) : escape special word = word := by
  induction word with
  | nil => rfl
  | cons x word ih =>
      obtain ⟨hx, hword⟩ := List.forall_mem_cons.mp other
      rw [escape_cons_other hx, ih hword]

/-- A word without quotes and special characters is written as it is. -/
theorem bareWord_eq_self (plain : ∀ c ∈ word, isSpecialBare c = false ∧ isQuote c = false) :
    bareWord word = word := by
  cases word with
  | nil => rfl
  | cons x word =>
      obtain ⟨⟨hspecial, hquote⟩, hword⟩ := List.forall_mem_cons.mp plain
      rw [bareWord, escape_cons_other (by simp [hspecial, hquote]),
        escape_eq_self fun c hc => (hword c hc).1]
      rfl

end

/-! ## Reading -/

variable {quote : Option Char} {special : Char → Bool} {before after word written : List Char}
  {start : Place} {mark : Option Place} {x : Char}

/-- The rest of a word is read from any point of it. -/
def runWord (quote : Option Char) (now : PartialWord) : Option PartialWord :=
  Turn.run (wordTurn quote) (fun now => now.cursor.remaining) (wordTurn_shrinks quote) now

/-- Reading ends at a character that ends the word, and at the end of the text. -/
theorem runWord_stop {c : Cursor} (stops : endsWord quote c.lookahead = true)
    (letters : List Char) : runWord quote ⟨c, letters⟩ = some ⟨c, letters⟩ :=
  Turn.run_of_done (by simp [wordTurn, stops])

theorem runWord_of_again {now later : PartialWord} (hturn : wordTurn quote now = .again later) :
    runWord quote now = runWord quote later :=
  Turn.run_of_again hturn

/-- Reading takes a part of a word, if all is escaped in it that has to be. -/
theorem runWord_escape (hslash : endsWord quote '\\' = false)
    (solid : ∀ c ∈ word, c ≠ '\x00' ∧ (special c = false → endsWord quote c = false ∧ c ≠ '\\'))
    (before after letters : List Char) :
    runWord quote ⟨⟨.between before (escape special word ++ after), start, mark⟩, letters⟩ =
      runWord quote ⟨⟨.between (before ++ escape special word) after, start, mark⟩,
        word.reverse ++ letters⟩ := by
  induction word generalizing before letters with
  | nil => simp
  | cons x word ih =>
      obtain ⟨⟨hnul, hplain⟩, hword⟩ := List.forall_mem_cons.mp solid
      cases hx : special x with
      | true =>
          have hturn : wordTurn quote
              ⟨⟨.between before ('\\' :: x :: (escape special word ++ after)), start, mark⟩,
                letters⟩ =
                .again ⟨⟨.between (before ++ ['\\'] ++ [x]) (escape special word ++ after), start,
                  mark⟩, x :: letters⟩ := by
            simp [wordTurn, hslash, hnul]
          rw [escape_cons_special hx]
          refine (runWord_of_again hturn).trans ((ih hword _ _).trans ?_)
          simp
      | false =>
          obtain ⟨hends, hne⟩ := hplain hx
          have hturn : wordTurn quote
              ⟨⟨.between before (x :: (escape special word ++ after)), start, mark⟩, letters⟩ =
                .again ⟨⟨.between (before ++ [x]) (escape special word ++ after), start, mark⟩,
                  x :: letters⟩ := by
            simp [wordTurn, hends, hne, hnul]
          rw [escape_cons_other hx]
          refine (runWord_of_again hturn).trans ((ih hword _ _).trans ?_)
          simp

/-- A written word is read as a certain word, in front of a certain text. -/
def ReadsAs (written after word : List Char) : Prop :=
  ∀ before start mark, readWord? ⟨.between before (written ++ after), start, mark⟩ =
    some (word, ⟨.between (before ++ written) after, start, mark⟩)

theorem readWord?_of_runWord {c inside after : Cursor} {letters : List Char}
    (hquote : (if isQuote c.lookahead then some c.lookahead else none) = quote)
    (hinside : (if quote.isSome then c.consume else c) = inside)
    (hrun : runWord quote ⟨inside, []⟩ = some ⟨after, letters⟩) (hletters : letters ≠ []) :
    readWord? c =
      some (letters.reverse, if quote = some after.lookahead then after.consume else after) := by
  subst hquote hinside
  obtain ⟨x, letters, rfl⟩ := List.exists_cons_of_ne_nil hletters
  rw [runWord] at hrun
  rw [readWord?, hrun]

/-- A word between quotes is read without them, whatever comes behind it. -/
theorem readsAs_quotedWord {q : Char} (hq : isQuote q = true) (nonempty : word ≠ [])
    (nul : '\x00' ∉ word) (after : List Char) : ReadsAs (quotedWord q word) after word := by
  intro before start mark
  have hslash : endsWord (some q) '\\' = false := by
    have hq : q = '\'' ∨ q = '\"' := by simpa [isQuote] using hq
    rcases hq with rfl | rfl <;> decide
  have hsolid : ∀ c ∈ word, c ≠ '\x00' ∧
      (isSpecialQuoted q c = false → endsWord (some q) c = false ∧ c ≠ '\\') := by
    intro c hc
    have hnul : c ≠ '\x00' := fun hnul => nul (hnul ▸ hc)
    refine ⟨hnul, fun hplain => ?_⟩
    simp only [isSpecialQuoted, Bool.or_eq_false_iff, decide_eq_false_iff_not] at hplain
    simp [endsWord, hnul, hplain]
  have hrun : runWord (some q) ⟨⟨.between (before ++ [q])
      (escape (isSpecialQuoted q) word ++ q :: after), start, mark⟩, []⟩ =
        some ⟨⟨.between (before ++ [q] ++ escape (isSpecialQuoted q) word) (q :: after), start,
          mark⟩, word.reverse ++ []⟩ := by
    rw [runWord_escape hslash hsolid, runWord_stop (by simp [endsWord])]
  rw [readWord?_of_runWord (by simp [quotedWord, hq]) (by simp [quotedWord]) hrun
    (by simp [nonempty])]
  simp [quotedWord]

/-- A bare word begins with a backslash or with a character that is no quote and no
whitespace. -/
theorem exists_cons_bareWord (nonempty : word ≠ []) :
    ∃ x text, bareWord word = x :: text ∧ isSpace x = false ∧ isQuote x = false := by
  obtain ⟨x, word, rfl⟩ := List.exists_cons_of_ne_nil nonempty
  cases hx : isSpecialBare x || isQuote x with
  | true =>
      refine ⟨'\\', x :: escape isSpecialBare word, ?_, by decide, by decide⟩
      rw [bareWord, escape_cons_special hx]
      rfl
  | false =>
      refine ⟨x, escape isSpecialBare word, ?_, ?_⟩
      · rw [bareWord, escape_cons_other hx]
        rfl
      · simp only [isSpecialBare, Bool.or_eq_false_iff] at hx
        exact ⟨hx.1.2, hx.2⟩

/-- A word without quotes is read up to whitespace or the end of the text. -/
theorem readsAs_bareWord (nonempty : word ≠ []) (nul : '\x00' ∉ word)
    (stops : ∀ c ∈ after.head?, isSpace c = true) : ReadsAs (bareWord word) after word := by
  intro before start mark
  have hslash : endsWord none '\\' = false := by decide
  have hplain (c : Char) (hc : c ∈ word) (hbare : isSpecialBare c = false) :
      endsWord none c = false ∧ c ≠ '\\' := by
    have hnul : c ≠ '\x00' := fun hnul => nul (hnul ▸ hc)
    simp only [isSpecialBare, Bool.or_eq_false_iff, decide_eq_false_iff_not] at hbare
    simp [endsWord, hnul, hbare]
  have hstops (before : List Char) :
      endsWord none (Cursor.mk (.between before after) start mark).lookahead = true := by
    cases after with
    | nil => rfl
    | cons c after => simp [endsWord, stops c rfl]
  obtain ⟨y, text, hwritten, -, hquote⟩ := exists_cons_bareWord nonempty
  obtain ⟨x, word, rfl⟩ := List.exists_cons_of_ne_nil nonempty
  have hfirst : ∀ c ∈ [x], c ≠ '\x00' ∧
      ((isSpecialBare c || isQuote c) = false → endsWord none c = false ∧ c ≠ '\\') := by
    intro c hc
    obtain rfl := List.mem_singleton.mp hc
    refine ⟨fun hnul => nul (by simp [hnul]), fun hbare => hplain c (by simp) ?_⟩
    exact (Bool.or_eq_false_iff.mp hbare).1
  have hothers : ∀ c ∈ word, c ≠ '\x00' ∧
      (isSpecialBare c = false → endsWord none c = false ∧ c ≠ '\\') := fun c hc =>
    ⟨fun hnul => nul (List.mem_cons_of_mem x (hnul ▸ hc)), hplain c (by simp [hc])⟩
  have hrun : runWord none ⟨⟨.between before (bareWord (x :: word) ++ after), start, mark⟩, []⟩ =
      some ⟨⟨.between (before ++ bareWord (x :: word)) after, start, mark⟩,
        word.reverse ++ ([x].reverse ++ [])⟩ := by
    rw [bareWord, List.append_assoc, runWord_escape hslash hfirst, runWord_escape hslash hothers,
      runWord_stop (hstops _), List.append_assoc]
  rw [readWord?_of_runWord (by simp [hwritten, hquote]) rfl hrun (by simp)]
  simp

/-! ## Naming a heredoc -/

variable {h : Heredoc} {gap text : List Char}

/-- Whether a word that is written with a certain character at its beginning makes its
heredoc raw. -/
def beginsRaw (c : Char) : Bool := isQuote c || c = '\\'

/-- A call that accepts the word behind an arrow ignores whitespace in front of it, takes it as
it is written, and names the innermost heredoc as it is read. -/
theorem scan_writtenWord (reads : ReadsAs written after word) (hwritten : written = x :: text)
    (hx : isSpace x = false) (blank : ∀ c ∈ gap, isSpace c = true) (s : State) (h : Heredoc)
    (before : List Char) :
    (s.push h).scan words (.begin (.between before (gap ++ (written ++ after)))) =
      ⟨s.push { h with raw := beginsRaw x, delimiter := word }, some (.heredocStart,
        ⟨.between (before ++ gap ++ written) after, .between (before ++ gap) (written ++ after),
          none⟩)⟩ := by
  have hskip : (Cursor.begin (.between before (gap ++ (written ++ after)))).ignoreWhile isSpace =
      .begin (.between (before ++ gap) (written ++ after)) := by
    rw [Cursor.ignoreWhile_begin, Place.skipWhile_between blank (by simpa [hwritten] using hx)]
  have hread : readDelimiter h (.begin (.between before (gap ++ (written ++ after)))) =
      ({ h with raw := beginsRaw x, delimiter := word },
        some ⟨.between (before ++ gap ++ written) after,
          .between (before ++ gap) (written ++ after), none⟩) := by
    delta readDelimiter
    dsimp only
    rw [hskip, Cursor.begin, reads, hwritten]
    rfl
  apply @State.scan_of_claim _ _ _ _ _ .heredocStart
  case silent => simp [Resolver.earlier, Resolver.order, Resolver.asked, words]
  case asked => simp [Resolver.asked, words, isRecovering, State.push]
  case claims =>
    rw [Resolver.run, State.nameHeredoc]
    simp only [State.push]
    rw [hread]
    rfl
  case counts => simp [words, Kind.isEmittable]

theorem sees_writtenWord (reads : ReadsAs written after word) (hwritten : written = x :: text)
    (hx : isSpace x = false) (blank : ∀ c ∈ gap, isSpace c = true) (s : State) (h : Heredoc)
    (before : List Char) :
    Sees [.call words] ⟨s.push h, .between before (gap ++ (written ++ after))⟩
      [(some (.heredocStart, written), .between (before ++ gap ++ written) after)]
      ⟨s.push { h with raw := beginsRaw x, delimiter := word },
        .between (before ++ gap ++ written) after⟩ :=
  sees_of_scan (before ++ gap) written after
    (scan_writtenWord reads hwritten hx blank s h before) rfl rfl

/-- Every word without NUL can be written as the delimiter of a heredoc, behind any
whitespace. Between quotes it makes the heredoc raw, whatever comes behind it; without quotes,
in front of whitespace or of the end of the text, it does so just in case it begins with a
backslash. The token is the word as it is written, the delimiter is the word itself, and
nothing else changes. -/
theorem written_word_names_heredoc (nonempty : word ≠ []) (nul : '\x00' ∉ word)
    (blank : ∀ c ∈ gap, isSpace c = true) (s : State) (h : Heredoc) (before : List Char) :
    (∀ quote, isQuote quote = true → ∀ after,
      Sees [.call words]
        ⟨s.push h, .between before (gap ++ (quotedWord quote word ++ after))⟩
        [(some (.heredocStart, quotedWord quote word),
          .between (before ++ gap ++ quotedWord quote word) after)]
        ⟨s.push { h with raw := true, delimiter := word },
          .between (before ++ gap ++ quotedWord quote word) after⟩) ∧
    ∀ after, (∀ c ∈ after.head?, isSpace c = true) →
      Sees [.call words] ⟨s.push h, .between before (gap ++ (bareWord word ++ after))⟩
        [(some (.heredocStart, bareWord word), .between (before ++ gap ++ bareWord word) after)]
        ⟨s.push { h with raw := (bareWord word).head? = some '\\', delimiter := word },
          .between (before ++ gap ++ bareWord word) after⟩ := by
  constructor
  · intro quote hquote after
    have hspace : isSpace quote = false := by
      have hquote : quote = '\'' ∨ quote = '\"' := by simpa [isQuote] using hquote
      rcases hquote with rfl | rfl <;> decide
    have hsees := sees_writtenWord (readsAs_quotedWord hquote nonempty nul after) rfl hspace blank
      s h before
    rwa [beginsRaw, hquote, Bool.true_or] at hsees
  · intro after stops
    obtain ⟨x, text, hwritten, hspace, hquote⟩ := exists_cons_bareWord nonempty
    have hsees := sees_writtenWord (readsAs_bareWord nonempty nul stops) hwritten hspace blank
      s h before
    have hraw : beginsRaw x = decide ((bareWord word).head? = some '\\') := by
      simp [beginsRaw, hquote, hwritten]
    rwa [hraw] at hsees

/-- A word with both quotes, a backslash, a space and a line feed in it, behind a line feed. -/
theorem written_word_names_heredoc_mixed :
    let word : List Char := ['\'', '\\', ' ', '\n', '\"', 'é']
    let h : Heredoc := ⟨false, true, true, ['E']⟩
    word ≠ [] ∧ '\x00' ∉ word ∧ (∀ c ∈ ['\n'], isSpace c = true) ∧
      isQuote '\"' = true ∧ (∀ c ∈ ['\t'].head?, isSpace c = true) ∧
      Sees [.call words]
        ⟨State.initial.push h, .between [] (['\n'] ++ (quotedWord '\"' word ++ ['x']))⟩
        [(some (.heredocStart, ['\"', '\'', '\\', '\\', ' ', '\\', '\n', '\\', '\"', 'é', '\"']),
          .between ([] ++ ['\n'] ++ quotedWord '\"' word) ['x'])]
        ⟨State.initial.push ⟨true, true, true, word⟩,
          .between ([] ++ ['\n'] ++ quotedWord '\"' word) ['x']⟩ ∧
      Sees [.call words]
        ⟨State.initial.push h, .between [] (['\n'] ++ (bareWord word ++ ['\t']))⟩
        [(some (.heredocStart, ['\\', '\'', '\\', '\\', '\\', ' ', '\\', '\n', '\"', 'é']),
          .between ([] ++ ['\n'] ++ bareWord word) ['\t'])]
        ⟨State.initial.push ⟨true, true, true, word⟩,
          .between ([] ++ ['\n'] ++ bareWord word) ['\t']⟩ := by
  intro word h
  have hnonempty : word ≠ [] := by decide
  have hnul : '\x00' ∉ word := by decide
  have hblank : ∀ c ∈ ['\n'], isSpace c = true := List.forall_mem_singleton.mpr (by decide)
  have hstops : ∀ c ∈ ['\t'].head?, isSpace c = true := by
    rintro _ ⟨⟩
    decide
  obtain ⟨hquoted, hbare⟩ :=
    written_word_names_heredoc hnonempty hnul hblank State.initial h []
  exact ⟨hnonempty, hnul, hblank, rfl, hstops, hquoted '\"' rfl ['x'], hbare ['\t'] hstops⟩

end ContextLexer.Shell
