/-
# Where quoted strings close

There are two ways over a quoted string. In a comment it is skipped in one go, and there what
has been compared with the tag is not looked at again. Outside of comments the host reads the
inside itself and asks for the closer wherever one may stand. Both find the same closer, the
first one: a tag has no bar in it, so no closer begins in what a failed comparison has passed.
-/

import ContextLexer.Proofs.Delimited.Change
import ContextLexer.Proofs.Delimited.Literals

namespace ContextLexer.Delimited

variable {before text front back : List Char} {tag : List Char} {start : Place}
  {mark : Option Place} {accepted : Acceptance Kind}

/-! ## First occurrences -/

/-- A word first occurs in a text behind one part of it and in front of another. -/
structure FirstOccurrence (word text front back : List Char) : Prop where
  /-- The word stands between the two parts. -/
  text_eq : text = front ++ (word ++ back)
  /-- It does not occur earlier. -/
  earliest : ∀ n < front.length, ¬ word <+: text.drop n

/-- A word that occurs in a text has a first occurrence there. -/
theorem exists_firstOccurrence {word : List Char} (h : word <:+: text) :
    ∃ front back, FirstOccurrence word text front back := by
  induction text with
  | nil => exact ⟨[], [], by simpa using h, by simp⟩
  | cons x text ih =>
      by_cases hfirst : word <+: x :: text
      · obtain ⟨back, hback⟩ := hfirst
        exact ⟨[], back, hback.symm, by simp⟩
      · obtain ⟨front, back, rfl, hearliest⟩ := ih ((List.infix_cons_iff.mp h).resolve_left hfirst)
        refine ⟨x :: front, back, rfl, ?_⟩
        intro n hn
        cases n with
        | zero => exact hfirst
        | succ n => exact hearliest n (Nat.lt_of_succ_lt_succ hn)

/-- In front of its first occurrence a word does not occur. -/
theorem FirstOccurrence.not_infix {word : List Char}
    (first : FirstOccurrence word text front back) (hword : word ≠ []) : ¬ word <:+: front := by
  rintro ⟨earlier, later, rfl⟩
  have hpos := List.length_pos_iff.mpr hword
  refine first.earliest earlier.length (by simp only [List.length_append]; omega) ?_
  rw [first.text_eq, List.append_assoc, List.append_assoc, List.drop_left]
  exact List.prefix_append _ _

/-! ## Skipping -/

/-- What ends a quoted string: a bar, the tag and a brace. -/
def closer (tag : List Char) : List Char := '|' :: tag ++ ['}']

theorem closer_append (tag back : List Char) :
    closer tag ++ back = '|' :: (tag ++ '}' :: back) := by
  simp [closer]

/-- Without a closer the run comes to the end of the text. -/
theorem run_unclosed (htag : ∀ c ∈ tag, isTagLetter c = true) (unclosed : ¬ closer tag <:+: text) :
    Turn.run (quotedTurn tag) Cursor.remaining (quotedTurn_shrinks tag)
        ⟨.between before text, start, mark⟩ =
      (false, ⟨.between (before ++ text) [], start, mark⟩) := by
  refine Turn.run_eq_of_invariant (fun c => ∃ front left, front ++ left = before ++ text ∧
    (¬ closer tag <:+: left) ∧ c = ⟨.between front left, start, mark⟩) ?_
    ⟨before, text, rfl, unclosed, rfl⟩
  rintro _ ⟨front, left, hwhole, hleft, rfl⟩
  cases left with
  | nil =>
      left
      rw [← hwhole, List.append_nil]
      simp [quotedTurn]
  | cons x left =>
      right
      obtain ⟨met, more, rfl, -, hturn⟩ :=
        quotedTurn_of_unlike htag fun h => hleft (List.IsPrefix.isInfix h)
      have hmore : ¬ closer tag <:+: more := fun h =>
        hleft (h.trans (List.suffix_append (x :: met) more).isInfix)
      exact ⟨_, ⟨front ++ x :: met, more, by rw [← hwhole]; simp, hmore, rfl⟩, hturn _ _ _⟩

/-- A quoted string is skipped up to the brace of the first closer. -/
theorem readQuoted_closed (htag : ∀ c ∈ tag, isTagLetter c = true)
    (first : FirstOccurrence (closer tag) text front back) :
    readQuoted ⟨.between before (tag ++ '|' :: text), start, mark⟩ =
      (true, ⟨.between (before ++ tag ++ ['|'] ++ front ++ '|' :: tag) ('}' :: back), start,
        mark⟩) := by
  have unclosed : ¬ '|' :: tag ++ ['}'] <:+: front := first.not_infix (List.cons_ne_nil _ _)
  have hrun := @run_quotedTurn (before ++ tag ++ ['|']) back start mark tag front htag unclosed
  rw [readQuoted, readTag_between htag, first.text_eq, closer_append]
  simpa using hrun

theorem readQuoted_unclosed (htag : ∀ c ∈ tag, isTagLetter c = true)
    (unclosed : ¬ closer tag <:+: text) :
    readQuoted ⟨.between before (tag ++ '|' :: text), start, mark⟩ =
      (false, ⟨.between (before ++ tag ++ ['|'] ++ text) [], start, mark⟩) := by
  rw [readQuoted, readTag_between htag]
  exact run_unclosed htag unclosed

/-! ## Calls -/

/-- A scanner inside a quoted string. -/
def State.within (tag : List Char) : State := ⟨true, tag⟩

/-- A call returns a closer only in front of one. -/
theorem closer_of_call {origin : Place}
    (h : (Scanner.call (State.within tag) accepted origin).token.map Token.kind =
      some .quotedClosing) : closer tag <+: origin.ahead := by
  have hchange := change_call (State.within tag) accepted origin
  generalize Scanner.call (State.within tag) accepted origin = call at h hchange
  obtain ⟨later, token, place⟩ := call
  cases hchange with
  | quotedClosing wanted leads brace =>
      have hhead := (Place.lookahead_eq_iff (by decide)).mp brace
      obtain ⟨back, hback⟩ := List.head?_eq_some_iff.mp hhead
      refine ⟨back, ?_⟩
      rw [leads.ahead_eq, hback, closer_append]
      rfl
  | nothing => cases h
  | outside either => rcases either with rfl | rfl <;> cases h
  | quotedOpening | stringQuote | nul => cases h

/-- In front of a bar a call that may not find an opening looks for the closer. -/
theorem scan_bar (closing : .quotedClosing ∈ accepted) (opening : .quotedOpening ∉ accepted)
    (s : State) (before text : List Char) :
    Scanner.scan s accepted (.begin (.between before ('|' :: text))) =
      s.endQuoted (.begin (.between before ('|' :: text))) := by
  change s.scan accepted _ = _
  rw [State.scan, if_neg fun h => opening h.1, if_pos ⟨closing, rfl⟩]

/-- In front of a closer the call claims its bar and the tag, and the string is over. -/
theorem call_closer (closing : .quotedClosing ∈ accepted) (opening : .quotedOpening ∉ accepted)
    (before back : List Char) :
    Scanner.call (State.within tag) accepted (.between before (closer tag ++ back)) =
      ⟨.initial,
        some ⟨.quotedClosing, .between before (closer tag ++ back),
          .between (before ++ '|' :: tag) ('}' :: back)⟩,
        .between (before ++ '|' :: tag) ('}' :: back)⟩ := by
  have hword := @Cursor.consumeWord_between (before ++ ['|']) tag ('}' :: back)
    (.between before ('|' :: (tag ++ '}' :: back))) none
  have hmeet : meetTag tag (Cursor.begin (.between before ('|' :: (tag ++ '}' :: back)))).consume =
      (true, ⟨.between (before ++ '|' :: tag) ('}' :: back),
        .between before ('|' :: (tag ++ '}' :: back)), none⟩) := by
    simp [meetTag, Cursor.begin, hword]
  rw [closer_append, Scanner.call, scan_bar closing opening, State.endQuoted, State.within, hmeet]
  have hindex : (Place.between before ('|' :: (tag ++ '}' :: back))).index ≤
      (Place.between (before ++ '|' :: tag) ('}' :: back)).index := by
    simp [Place.index_between]
  simp [settle, Cursor.token, Cursor.tokenStart, Cursor.stop, Nat.not_lt.mpr hindex]

/-- In front of a bar that begins no closer the call declines. -/
theorem call_unlike (htag : ∀ c ∈ tag, isTagLetter c = true) (closing : .quotedClosing ∈ accepted)
    (opening : .quotedOpening ∉ accepted) (before : List Char)
    (unlike : ¬ closer tag <+: '|' :: text) :
    Scanner.call (State.within tag) accepted (.between before ('|' :: text)) =
      ⟨.within tag, none, .between before ('|' :: text)⟩ := by
  have hunlike : ¬ tag ++ ['}'] <+: text := fun h => unlike (List.cons_prefix_cons.mpr ⟨rfl, h⟩)
  obtain ⟨met, left, -, -, hmeet⟩ := meetTag_of_unlike (ne_nul_of_tag htag) hunlike
  have hbegin : (Cursor.begin (.between before ('|' :: text))).consume =
      ⟨.between (before ++ ['|']) text, .between before ('|' :: text), none⟩ := by
    simp [Cursor.begin]
  rw [Scanner.call, scan_bar closing opening, State.endQuoted, State.within, hbegin, hmeet]
  rfl

/-! ## Both -/

/-- Skipping and asking find the same closer. Behind a tag and its bar, skipping stops at the
brace of the first closer, and it fails at the end of the text exactly if there is none. A host
inside of the string that asks for the closer, but not for an opening, gets it where it first
occurs. Earlier it is not returned, and at every earlier bar the call declines and the scanner
stays inside of the string with its tag. -/
theorem quoted_closers_agree (htag : ∀ c ∈ tag, isTagLetter c = true)
    (closing : .quotedClosing ∈ accepted) (opening : .quotedOpening ∉ accepted)
    (before text : List Char) (start : Place) (mark : Option Place) :
    let skip := readQuoted ⟨.between before (tag ++ '|' :: text), start, mark⟩
    let inside := before ++ tag ++ ['|']
    let at_ (n : Nat) : Place := .between (inside ++ text.take n) (text.drop n)
    (skip = (false, ⟨.between (inside ++ text) [], start, mark⟩) ↔ ¬ closer tag <:+: text) ∧
    ∀ front back, FirstOccurrence (closer tag) text front back →
      let stop : Place := .between (inside ++ front ++ '|' :: tag) ('}' :: back)
      skip = (true, ⟨stop, start, mark⟩) ∧
      Scanner.call (State.within tag) accepted (at_ front.length) =
        ⟨.initial, some ⟨.quotedClosing, at_ front.length, stop⟩, stop⟩ ∧
      ∀ n < front.length,
        (Scanner.call (State.within tag) accepted (at_ n)).token.map Token.kind ≠
            some .quotedClosing ∧
          (text[n]? = some '|' →
            Scanner.call (State.within tag) accepted (at_ n) = ⟨.within tag, none, at_ n⟩) := by
  intro skip inside at_
  refine ⟨⟨?_, readQuoted_unclosed htag⟩, ?_⟩
  · intro hskip hcloser
    obtain ⟨front, back, first⟩ := exists_firstOccurrence hcloser
    have hclosed : skip = (true, _) := readQuoted_closed htag first
    cases hskip.symm.trans hclosed
  · intro front back first stop
    have hat : at_ front.length = .between (inside ++ front) (closer tag ++ back) := by
      simp only [at_, first.text_eq, List.take_left, List.drop_left]
    refine ⟨readQuoted_closed htag first, ?_, ?_⟩
    · rw [hat]
      exact call_closer closing opening (inside ++ front) back
    · intro n hn
      have hearlier := first.earliest n hn
      refine ⟨fun h => hearlier (closer_of_call h), ?_⟩
      intro hbar
      obtain ⟨hlength, hx⟩ := List.getElem?_eq_some_iff.mp hbar
      have hdrop : text.drop n = '|' :: text.drop (n + 1) := by
        rw [List.drop_eq_getElem_cons hlength, hx]
      rw [hdrop] at hearlier
      simp only [at_, hdrop]
      exact call_unlike htag closing opening _ hearlier

/-- A bar and a letter of the tag come before the closer. -/
theorem quoted_closers_agree_restarted :
    let tag := ['i', 'd']
    let text := ['|', 'i', '|', 'i', 'd', '}']
    let accepted : Acceptance Kind := .ofList [.quotedClosing, .nul]
    (∀ c ∈ tag, isTagLetter c = true) ∧ .quotedClosing ∈ accepted ∧ .quotedOpening ∉ accepted ∧
      FirstOccurrence (closer tag) text ['|', 'i'] [] ∧
      (readQuoted (.begin (.first (tag ++ '|' :: text)))).1 = true ∧
      (Scanner.call (State.within tag) accepted (.between ['i', 'd', '|'] text)).token = none := by
  intro tag text accepted
  have htag : ∀ c ∈ tag, isTagLetter c = true :=
    List.forall_mem_cons.mpr ⟨by decide, List.forall_mem_singleton.mpr (by decide)⟩
  have closing : .quotedClosing ∈ accepted := by decide
  have opening : .quotedOpening ∉ accepted := by decide
  have first : FirstOccurrence (closer tag) text ['|', 'i'] [] := ⟨rfl, by decide⟩
  obtain ⟨-, hfirst⟩ := quoted_closers_agree htag closing opening [] text
    (.first (tag ++ '|' :: text)) none
  obtain ⟨hskip, -, hearlier⟩ := hfirst _ _ first
  refine ⟨htag, closing, opening, first, congrArg Prod.fst hskip, ?_⟩
  exact congrArg Call.token ((hearlier 0 (by decide)).2 rfl)

end ContextLexer.Delimited
