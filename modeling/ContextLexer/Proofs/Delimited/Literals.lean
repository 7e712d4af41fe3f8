/-
# Reading literals inside comments

Each of the readers that a comment uses, for strings, character literals, identifiers and
quoted strings, reads the texts of its grammar and stops behind them, whatever follows.
-/

import ContextLexer.Proofs.Delimited.Grammar
import ContextLexer.Proofs.Passage
import ContextLexer.Proofs.Unicode.WhiteSpace

namespace ContextLexer.Delimited

variable {before text after : List Char} {start : Place} {mark : Option Place}

/-! ## Strings -/

theorem readString_between (htext : StringRest text) :
    readString ⟨.between before (text ++ after), start, mark⟩ =
      ⟨.between (before ++ text) after, start, mark⟩ := by
  induction htext generalizing before with
  | close =>
      rw [readString]
      apply Turn.run_of_done
      simp [stringTurn]
  | @escaped x rest hrest ih =>
      have hturn : stringTurn ⟨.between before ('\\' :: x :: rest ++ after), start, mark⟩ =
          .again ⟨.between (before ++ ['\\', x]) (rest ++ after), start, mark⟩ := by
        simp [stringTurn]
      have ih := @ih (before ++ ['\\', x])
      rw [readString] at ih ⊢
      rw [Turn.run_of_again hturn, ih]
      simp
  | @plain x rest hquote hslash hrest ih =>
      have hturn : stringTurn ⟨.between before (x :: rest ++ after), start, mark⟩ =
          .again ⟨.between (before ++ [x]) (rest ++ after), start, mark⟩ := by
        simp [stringTurn, hquote, hslash]
      have ih := @ih (before ++ [x])
      rw [readString] at ih ⊢
      rw [Turn.run_of_again hturn, ih]
      simp

/-! ## Character literals -/

/-- A code with the right number of digits is read with its closing quote. -/
theorem codeLiteral_between {digit : Char → Bool} {digits : List Char}
    (hdigits : ∀ d ∈ digits, digit d = true) :
    codeLiteral digit digits.length ⟨.between before (digits ++ '\'' :: after), start, mark⟩ =
      (none, ⟨.between (before ++ digits ++ ['\'']) after, start, mark⟩) := by
  rw [codeLiteral, Cursor.consumeCount_between hdigits]
  simp [closeLiteral]

theorem characterLiteral_between (htext : CharacterText text) :
    characterLiteral ⟨.between before (text ++ '\'' :: after), start, mark⟩ =
      (none, ⟨.between (before ++ text ++ ['\'']) after, start, mark⟩) := by
  cases htext with
  | @plain x hquote hslash =>
      by_cases hnul : x = '\x00'
      · simp [characterLiteral, closeLiteral, hnul]
      · simp [characterLiteral, closeLiteral, hquote, hslash, hnul]
  | @decimal a b c digits =>
      have ha : a.isDigit = true := digits a (by simp)
      have hcode := @codeLiteral_between (before ++ ['\\', a]) after start mark Char.isDigit [b, c]
        fun d hd => digits d (List.mem_cons_of_mem _ hd)
      simpa [characterLiteral, escapeLiteral, ha] using hcode
  | @hex a b digits =>
      have hcode := @codeLiteral_between (before ++ ['\\', 'x']) after start mark isHexDigit [a, b]
        digits
      simpa [characterLiteral, escapeLiteral] using hcode
  | @octal a b c digits =>
      have hcode := @codeLiteral_between (before ++ ['\\', 'o']) after start mark isOctalDigit
        [a, b, c] digits
      simpa [characterLiteral, escapeLiteral] using hcode
  | @escape x hx =>
      have hescapable : x ∈ escapable := hx
      have hdigit : x.isDigit = false ∧ x ≠ 'x' ∧ x ≠ 'o' := by
        simp only [List.mem_cons, List.not_mem_nil, or_false] at hx
        rcases hx with rfl | rfl | rfl | rfl | rfl | rfl | rfl | rfl <;> decide
      simp [characterLiteral, escapeLiteral, hdigit, hescapable, closeLiteral]

/-! ## Identifiers -/

theorem readIdentifier_between (htext : Identifier text)
    (ends : ∀ c ∈ after.head?, continuesIdentifier c = false) :
    readIdentifier ⟨.between before (text ++ after), start, mark⟩ =
      (true, ⟨.between (before ++ text) after, start, mark⟩) := by
  cases htext with
  | @mk x tail begins continues =>
      have htail := @Cursor.consumeWhile_between (before ++ [x]) tail after start mark _
        continues ends
      simp [readIdentifier, begins, htail]

theorem readDottedName_between (htext : DottedName text)
    (ends : ∀ c ∈ after.head?, continuesIdentifier c = false ∧ c ≠ '.') :
    readDottedName ⟨.between before (text ++ after), start, mark⟩ =
      (true, ⟨.between (before ++ text) after, start, mark⟩) := by
  induction htext generalizing before with
  | @last name hname =>
      have hread := @readIdentifier_between before name after start mark hname
        fun c hc => (ends c hc).1
      have hdot : (Place.between (before ++ name) after).lookahead ≠ '.' := by
        cases after with
        | nil => simp
        | cons x after => exact (ends x rfl).2
      rw [readDottedName]
      apply Turn.run_of_done
      simp [nameTurn, hread, hdot]
  | @dot name more hname hmore ih =>
      have hdot : continuesIdentifier '.' = false := by decide
      have hread := @readIdentifier_between before name ('.' :: (more ++ after)) start mark hname
        (by simpa using hdot)
      have hturn : nameTurn ⟨.between before (name ++ '.' :: more ++ after), start, mark⟩ =
          .again ⟨.between (before ++ name ++ ['.']) (more ++ after), start, mark⟩ := by
        simp [nameTurn, hread]
      have ih := @ih (before ++ name ++ ['.'])
      rw [readDottedName] at ih ⊢
      rw [Turn.run_of_again hturn, ih]
      simp

/-! ## Quoted strings -/

theorem ne_bar_of_tag {tag : List Char} (htag : ∀ c ∈ tag, isTagLetter c = true) : '|' ∉ tag := by
  intro hbar
  exact absurd (htag '|' hbar) (by decide)

theorem ne_nul_of_tag {tag : List Char} (htag : ∀ c ∈ tag, isTagLetter c = true) :
    '\x00' ∉ tag := by
  intro hnul
  exact absurd (htag '\x00' hnul) (by decide)

/-- Where the tag and the brace do not come next, a part of the tag is met. -/
theorem meetTag_of_unlike {tag : List Char} (htag : '\x00' ∉ tag)
    (unlike : ¬ tag ++ ['}'] <+: text) :
    ∃ met left, text = met ++ left ∧ met <+: tag ∧ ∀ before start mark,
      meetTag tag ⟨.between before text, start, mark⟩ =
        (false, ⟨.between (before ++ met) left, start, mark⟩) := by
  induction tag generalizing text with
  | nil =>
      refine ⟨[], text, rfl, List.prefix_rfl, ?_⟩
      intro before start mark
      cases text with
      | nil => simp [meetTag, Cursor.consumeWord]
      | cons y text =>
          have hy : y ≠ '}' := by
            rintro rfl
            exact unlike (List.cons_prefix_cons.mpr ⟨rfl, List.nil_prefix⟩)
          simp [meetTag, Cursor.consumeWord, hy]
  | cons x tag ih =>
      obtain ⟨hx, hrest⟩ : '\x00' ≠ x ∧ '\x00' ∉ tag := by simpa using htag
      cases text with
      | nil =>
          refine ⟨[], [], rfl, List.nil_prefix, ?_⟩
          intro before start mark
          simp [meetTag, Cursor.consumeWord, hx]
      | cons y text =>
          by_cases hxy : y = x
          · subst hxy
            have htext : ¬ tag ++ ['}'] <+: text := fun h =>
              unlike (List.cons_prefix_cons.mpr ⟨rfl, h⟩)
            obtain ⟨met, left, rfl, hmet, hmeet⟩ := ih hrest htext
            refine ⟨y :: met, left, rfl, List.cons_prefix_cons.mpr ⟨rfl, hmet⟩, ?_⟩
            intro before start mark
            have hmeet := hmeet (before ++ [y]) start mark
            simpa [meetTag, Cursor.consumeWord] using hmeet
          · refine ⟨[], y :: text, rfl, List.nil_prefix, ?_⟩
            intro before start mark
            simp [meetTag, Cursor.consumeWord, hxy]

/-- A turn in front of a text with no closer at its beginning leads to a later point of it.
Only the character next to the turn can be a bar. -/
theorem quotedTurn_of_unlike {tag : List Char} (htag : ∀ c ∈ tag, isTagLetter c = true)
    {x : Char} (unlike : ¬ '|' :: tag ++ ['}'] <+: x :: text) :
    ∃ met left, text = met ++ left ∧ '|' ∉ met ∧ ∀ before start mark,
      quotedTurn tag ⟨.between before (x :: text), start, mark⟩ =
        .again ⟨.between (before ++ x :: met) left, start, mark⟩ := by
  by_cases hbar : x = '|'
  · subst hbar
    have hunlike : ¬ tag ++ ['}'] <+: text := fun h =>
      unlike (List.cons_prefix_cons.mpr ⟨rfl, h⟩)
    obtain ⟨met, left, rfl, hmet, hmeet⟩ := meetTag_of_unlike (ne_nul_of_tag htag) hunlike
    refine ⟨met, left, rfl, fun h => ne_bar_of_tag htag (hmet.subset h), ?_⟩
    intro before start mark
    have hmeet := hmeet (before ++ ['|']) start mark
    simp [quotedTurn, hmeet]
  · exact ⟨[], text, rfl, by simp, by simp [quotedTurn, hbar]⟩

/-- A closer has no bar but its first character, so it does not begin in front of a bar and
reach beyond it. -/
theorem unlike_append {tag inside : List Char} (htag : '|' ∉ tag) {x : Char}
    (unlike : ¬ '|' :: tag ++ ['}'] <+: x :: inside) (rest : List Char) :
    ¬ '|' :: tag ++ ['}'] <+: x :: (inside ++ '|' :: rest) := by
  intro h
  have hinside : x :: inside <+: x :: (inside ++ '|' :: rest) := List.prefix_append _ _
  rcases List.prefix_or_prefix_of_prefix h hinside with hcloser | ⟨more, hmore⟩
  · exact unlike hcloser
  · have hnext : more <+: '|' :: rest := by
      rw [← hmore] at h
      exact (List.prefix_append_right_inj (x :: inside)).mp h
    cases more with
    | nil => exact unlike ⟨[], by rw [← hmore]; simp⟩
    | cons y more =>
        obtain ⟨rfl, -⟩ := List.cons_prefix_cons.mp hnext
        have htail : inside ++ '|' :: more = tag ++ ['}'] := (List.cons.inj hmore).2
        have hbar : '|' ∈ tag ++ ['}'] := by simp [← htail]
        exact htag (by simpa using hbar)

/-- A turn inside a quoted string leads to a later point of it, and at its end to its last
bar and the tag. -/
theorem quotedTurn_inside {tag inside : List Char} (htag : ∀ c ∈ tag, isTagLetter c = true)
    (unclosed : ¬ '|' :: tag ++ ['}'] <:+: inside) :
    quotedTurn tag ⟨.between before (inside ++ '|' :: (tag ++ '}' :: after)), start, mark⟩ =
      .done (true, ⟨.between (before ++ (inside ++ '|' :: tag)) ('}' :: after), start, mark⟩) ∨
    ∃ met left, inside = met ++ left ∧
      quotedTurn tag ⟨.between before (inside ++ '|' :: (tag ++ '}' :: after)), start, mark⟩ =
        .again ⟨.between (before ++ met) (left ++ '|' :: (tag ++ '}' :: after)), start, mark⟩ := by
  cases inside with
  | nil =>
      left
      have hword := @Cursor.consumeWord_between (before ++ ['|']) tag ('}' :: after) start mark
      simp [quotedTurn, meetTag, hword]
  | cons x inside =>
      right
      have hbar := ne_bar_of_tag htag
      have hunlike : ¬ '|' :: tag ++ ['}'] <+: x :: inside := fun h => unclosed h.isInfix
      obtain ⟨met, left, htext, hmet, hturn⟩ :=
        quotedTurn_of_unlike htag (unlike_append hbar hunlike (tag ++ '}' :: after))
      obtain ⟨more, rfl, rfl⟩ : ∃ more, inside = met ++ more ∧
          left = more ++ '|' :: (tag ++ '}' :: after) := by
        rcases List.append_eq_append_iff.mp htext with ⟨more, rfl, hleft⟩ | ⟨more, rfl, hleft⟩
        · cases more with
          | nil => exact ⟨[], by simp, by simpa using hleft.symm⟩
          | cons y more =>
              obtain ⟨rfl, -⟩ := List.cons.inj hleft
              exact absurd (by simp) hmet
        · exact ⟨more, rfl, hleft⟩
      exact ⟨x :: met, more, rfl, hturn before start mark⟩

/-- Whatever of a quoted string is left, the run comes to its closing brace. -/
theorem run_quotedTurn {tag inside : List Char} (htag : ∀ c ∈ tag, isTagLetter c = true)
    (unclosed : ¬ '|' :: tag ++ ['}'] <:+: inside) :
    Turn.run (quotedTurn tag) Cursor.remaining (quotedTurn_shrinks tag)
        ⟨.between before (inside ++ '|' :: (tag ++ '}' :: after)), start, mark⟩ =
      (true, ⟨.between (before ++ (inside ++ '|' :: tag)) ('}' :: after), start, mark⟩) := by
  refine Turn.run_eq_of_invariant (fun c => ∃ front left, front ++ left = before ++ inside ∧
    (¬ '|' :: tag ++ ['}'] <:+: left) ∧
    c = ⟨.between front (left ++ '|' :: (tag ++ '}' :: after)), start, mark⟩) ?_
    ⟨before, inside, rfl, unclosed, rfl⟩
  rintro _ ⟨front, left, hwhole, hleft, rfl⟩
  rw [← List.append_assoc, ← hwhole, List.append_assoc]
  rcases quotedTurn_inside htag hleft with hdone | ⟨met, more, rfl, hagain⟩
  · left
    exact hdone
  · right
    have hmore : ¬ '|' :: tag ++ ['}'] <:+: more := fun h =>
      hleft (h.trans (List.suffix_append met more).isInfix)
    exact ⟨_, ⟨front ++ met, more, List.append_assoc _ _ _, hmore, rfl⟩, hagain⟩

theorem readTag_between {tag : List Char} (htag : ∀ c ∈ tag, isTagLetter c = true) :
    readTag ⟨.between before (tag ++ '|' :: after), start, mark⟩ =
      (some tag, ⟨.between (before ++ tag ++ ['|']) after, start, mark⟩) := by
  have hbar : isTagLetter '|' = false := by decide
  have hletters := @Cursor.consumeWhile_between before tag ('|' :: after) start mark isTagLetter
    htag (by simpa using hbar)
  have htake : (tag ++ '|' :: after).takeWhile isTagLetter = tag :=
    takeWhile_run htag (by simpa using hbar)
  rw [readTag, hletters]
  simp [htake]

theorem readQuotedToBrace_between (htext : QuotedText text) :
    readQuotedToBrace ⟨.between before (text ++ '}' :: after), start, mark⟩ =
      ⟨.between (before ++ text ++ ['}']) after, start, mark⟩ := by
  cases htext with
  | @mk tag inside htag unclosed =>
      have hsource : tag ++ '|' :: (inside ++ '|' :: tag) ++ '}' :: after =
          tag ++ '|' :: (inside ++ '|' :: (tag ++ '}' :: after)) := by simp
      have hrun := @run_quotedTurn (before ++ tag ++ ['|']) after start mark tag inside
        htag unclosed
      rw [readQuotedToBrace, readQuoted, hsource, readTag_between htag]
      dsimp only
      rw [hrun]
      simp

/-- A quoted string begins with a letter of its tag or with a bar. -/
theorem QuotedText.exists_cons (htext : QuotedText text) :
    ∃ x rest, text = x :: rest ∧ beginsQuoted x = true := by
  cases htext with
  | @mk tag inside htag unclosed =>
      cases tag with
      | nil => exact ⟨'|', _, rfl, by decide⟩
      | cons x tag =>
          have hx : isTagLetter x = true := htag x (by simp)
          exact ⟨x, _, rfl, by simp [beginsQuoted, hx]⟩

theorem beginsQuoted_of_isSpace {c : Char} (hc : isSpace c = true) : beginsQuoted c = false := by
  simp [beginsQuoted, isTagLetter, isLowercase_of_isSpace hc,
    ne_of_test (by decide : isSpace '_' = false) hc,
    ne_of_test (by decide : isSpace '|' = false) hc]

theorem continuesIdentifier_of_isSpace {c : Char} (hc : isSpace c = true) :
    continuesIdentifier c = false := by
  simp [continuesIdentifier, isAlphanumeric_of_isSpace hc,
    ne_of_test (by decide : isSpace '_' = false) hc,
    ne_of_test (by decide : isSpace '\'' = false) hc]

theorem DottedName.exists_cons {name : List Char} (hname : DottedName name) :
    ∃ x rest, name = x :: rest ∧ beginsIdentifier x = true := by
  cases hname with
  | last hname =>
      cases hname with
      | @mk x tail begins continues => exact ⟨x, tail, rfl, begins⟩
  | dot hname hmore =>
      cases hname with
      | @mk x tail begins continues => exact ⟨x, _, rfl, begins⟩

/-- Whitespace in front of a quoted string, or its bar, ends the name of an extension. -/
theorem ends_name {gap : List Char} (hgap : ∀ c ∈ gap, isSpace c = true)
    (apart : gap = [] → text.head? = some '|') :
    ∀ c ∈ (gap ++ (text ++ '}' :: after)).head?, continuesIdentifier c = false ∧ c ≠ '.' := by
  cases gap with
  | nil =>
      obtain ⟨rest, rfl⟩ := List.head?_eq_some_iff.mp (apart rfl)
      have hbar : continuesIdentifier '|' = false ∧ '|' ≠ '.' := by decide
      simpa using hbar
  | cons x gap =>
      have hx : isSpace x = true := hgap x (by simp)
      have hends : continuesIdentifier x = false ∧ x ≠ '.' :=
        ⟨continuesIdentifier_of_isSpace hx, ne_of_test (by decide) hx⟩
      simpa using hends

theorem readBraced_of_name {signs : List Char} {x : Char} {behind : Cursor}
    (hsigns : signs = ['%'] ∨ signs = ['%', '%']) (hx : x ≠ '%')
    (hread : readDottedName ⟨.between (before ++ signs) (x :: after), start, mark⟩ =
      (true, behind)) :
    readBraced ⟨.between before (signs ++ x :: after), start, mark⟩ =
      readQuotedToBrace (behind.consumeWhile isSpace) := by
  rcases hsigns with rfl | rfl
  · simp [readBraced, hx, hread]
  · simp [readBraced, hread]

/-- What an opening brace begins is read with the brace that closes it. -/
theorem readBraced_between (htext : BracedText text) :
    readBraced ⟨.between before (text ++ '}' :: after), start, mark⟩ =
      ⟨.between (before ++ text ++ ['}']) after, start, mark⟩ := by
  cases htext with
  | quoted htext =>
      obtain ⟨x, rest, htext', hx⟩ := htext.exists_cons
      have hsign : x ≠ '%' := by
        rintro rfl
        revert hx
        decide
      rw [readBraced, if_neg (by simp [htext', hsign])]
      exact readQuotedToBrace_between htext
  | @extension signs name gap text hsigns hname hgap apart htext =>
      obtain ⟨x, rest, hname', hx⟩ := hname.exists_cons
      have hsign : x ≠ '%' := by
        rintro rfl
        revert hx
        decide
      have hspace : ∀ c ∈ (text ++ '}' :: after).head?, isSpace c = false := by
        obtain ⟨y, rest, rfl, hy⟩ := htext.exists_cons
        have hy : isSpace y = false := by
          rw [Bool.eq_false_iff]
          intro hspace
          rw [beginsQuoted_of_isSpace hspace] at hy
          cases hy
        simpa using hy
      have hread := @readDottedName_between (before ++ signs) name (gap ++ (text ++ '}' :: after))
        start mark hname (ends_name hgap apart)
      have hskip := @Cursor.consumeWhile_between (before ++ signs ++ name) gap
        (text ++ '}' :: after) start mark isSpace hgap hspace
      have hquoted := @readQuotedToBrace_between (before ++ signs ++ name ++ gap) text after start
        mark htext
      rw [hname', List.cons_append] at hread
      have hsource : signs ++ (name ++ (gap ++ text)) ++ '}' :: after =
          signs ++ x :: (rest ++ (gap ++ (text ++ '}' :: after))) := by simp [hname']
      rw [hsource, readBraced_of_name hsigns hsign hread, ← hname', hskip, hquoted]
      simp

end ContextLexer.Delimited
