/-
# Recognising comments

A comment is read piece by piece, and only openers and closers move the depth. A literal
is a piece as a whole, and so is an identifier, so the depth behind the text up to a closer
is one less than in front of it, and a call at a comment claims the comment, neither more
nor less.
-/

import ContextLexer.Delimited.Scanner
import ContextLexer.Proofs.Delimited.Literals
import ContextLexer.Proofs.Readings

namespace ContextLexer.Delimited

open Scanner (Yields)

variable {before text after : List Char} {start : Place}

/-! ## Pieces -/

/-- In front of a given text, another one is a piece that is no opener and no closer. -/
def IsPiece (text after : List Char) : Prop :=
  ∀ before start mark, piece ⟨⟨.between before (text ++ after), start, mark⟩, none⟩ =
    (.other, ⟨⟨.between (before ++ text) after, start, mark⟩, none⟩)

theorem isPiece_string (htext : StringRest text) (after : List Char) :
    IsPiece ('\"' :: text) after := by
  intro before start mark
  have hread := @readString_between (before ++ ['\"']) text after start mark htext
  simp [piece, isSpecial, specialPiece, hread]

theorem isPiece_character (htext : CharacterText text) (after : List Char) :
    IsPiece ('\'' :: (text ++ ['\''])) after := by
  intro before start mark
  have hread := @characterLiteral_between (before ++ ['\'']) text after start mark htext
  simp [piece, isSpecial, specialPiece, hread]

theorem isPiece_quoted (htext : BracedText text) (after : List Char) :
    IsPiece ('{' :: (text ++ ['}'])) after := by
  intro before start mark
  have hread := @readBraced_between (before ++ ['{']) text after start mark htext
  simp [piece, isSpecial, specialPiece, hread]

theorem isPiece_identifier (htext : Identifier text)
    (ends : ∀ c ∈ after.head?, continuesIdentifier c = false) : IsPiece text after := by
  intro before start mark
  have hread := @readIdentifier_between before text after start mark htext ends
  cases htext with
  | @mk x tail begins continues =>
      have hspecial : isSpecial x = false := by
        rw [Bool.eq_false_iff]
        intro hx
        simp only [isSpecial, Bool.or_eq_true, decide_eq_true_eq] at hx
        rcases hx with (((rfl | rfl) | rfl) | rfl) | rfl <;> revert begins <;> decide
      have hnul : x ≠ '\x00' := by
        rintro rfl
        rw [beginsIdentifier_nul] at begins
        cases begins
      rw [List.cons_append] at hread ⊢
      simp [piece, hspecial, hnul, plainPiece, hread]

theorem isPiece_parenthesis (alone : after.head? ≠ some '*') : IsPiece ['('] after := by
  intro before start mark
  have hnext : (Place.between (before ++ ['(']) after).lookahead ≠ '*' := by
    cases after with
    | nil => simp
    | cons x after => simpa using alone
  simp [piece, isSpecial, specialPiece, hnext]

theorem isPiece_star (alone : after.head? ≠ some ')') : IsPiece ['*'] after := by
  intro before start mark
  have hnext : (Place.between (before ++ ['*']) after).lookahead ≠ ')' := by
    cases after with
    | nil => simp
    | cons x after => simpa using alone
  simp [piece, isSpecial, specialPiece, hnext]

theorem isPiece_plain {x : Char} (single : x ∉ ['(', '*', '\'', '\"', '{'])
    (hx : beginsIdentifier x = false) (after : List Char) : IsPiece [x] after := by
  intro before start mark
  have hspecial : isSpecial x = false := by
    simpa [isSpecial, and_assoc] using single
  by_cases hnul : x = '\x00'
  · simp [piece, hnul, isSpecial]
  · simp [piece, hspecial, hnul, plainPiece, readIdentifier, hx]

/-! ## Depth -/

/-- What reading on comes to where a number of comments are open. Behind the closer of the
outermost one there is nothing to read. -/
def readOn (before after : List Char) (start : Place) : Nat → Bool × Cursor
  | 0 => (true, ⟨.between before after, start, none⟩)
  | depth + 1 =>
    Turn.run commentTurn (fun now => now.spot.size) commentTurn_shrinks
      ⟨⟨⟨.between before after, start, none⟩, none⟩, depth + 1⟩

theorem readOn_piece (hpiece : IsPiece text after) (before : List Char) (start : Place)
    (depth : Nat) :
    readOn before (text ++ after) start (depth + 1) =
      readOn (before ++ text) after start (depth + 1) := by
  rw [readOn, readOn]
  apply Turn.run_of_again
  simp [commentTurn, hpiece before start none]

theorem readOn_opener (before after : List Char) (start : Place) (depth : Nat) :
    readOn before ('(' :: '*' :: after) start (depth + 1) =
      readOn (before ++ ['(', '*']) after start (depth + 1 + 1) := by
  rw [readOn, readOn]
  apply Turn.run_of_again
  simp [commentTurn, piece, isSpecial, specialPiece]

theorem readOn_closer (before after : List Char) (start : Place) (depth : Nat) :
    readOn before ('*' :: ')' :: after) start (depth + 1) =
      readOn (before ++ ['*', ')']) after start depth := by
  cases depth with
  | zero =>
      rw [readOn, readOn]
      apply Turn.run_of_done
      simp [commentTurn, piece, isSpecial, specialPiece]
  | succ depth =>
      rw [readOn, readOn]
      apply Turn.run_of_again
      simp [commentTurn, piece, isSpecial, specialPiece]

theorem CommentRest.exists_cons (htext : CommentRest text) : ∃ x rest, text = x :: rest := by
  cases htext with
  | identifier hname ends hrest =>
      cases hname with
      | mk begins continues => exact ⟨_, _, rfl⟩
  | _ => exact ⟨_, _, rfl⟩

/-- The text up to a closer closes one comment. -/
theorem readOn_rest (htext : CommentRest text) (before after : List Char) (start : Place)
    (depth : Nat) :
    readOn before (text ++ after) start (depth + 1) =
      readOn (before ++ text) after start depth := by
  induction htext generalizing before after depth with
  | close =>
      exact readOn_closer before after start depth
  | @comment inside rest hinside hrest ihinside ihrest =>
      have hopener := readOn_opener before (inside ++ (rest ++ after)) start depth
      have hinside := ihinside (before ++ ['(', '*']) (rest ++ after) (depth + 1)
      have hrest := ihrest (before ++ ['(', '*'] ++ inside) after depth
      simpa using hopener.trans (hinside.trans hrest)
  | @string text rest htext hrest ih =>
      have hpiece := readOn_piece (isPiece_string htext (rest ++ after)) before start depth
      have ih := ih (before ++ '\"' :: text) after depth
      simpa using hpiece.trans ih
  | @character text rest htext hrest ih =>
      have hpiece := readOn_piece (isPiece_character htext (rest ++ after)) before start depth
      have ih := ih (before ++ '\'' :: (text ++ ['\''])) after depth
      simpa using hpiece.trans ih
  | @quoted text rest htext hrest ih =>
      have hpiece := readOn_piece (isPiece_quoted htext (rest ++ after)) before start depth
      have ih := ih (before ++ '{' :: (text ++ ['}'])) after depth
      simpa using hpiece.trans ih
  | @identifier name rest hname ends hrest ih =>
      obtain ⟨y, tail, rfl⟩ := hrest.exists_cons
      have hpiece := readOn_piece (@isPiece_identifier name (y :: tail ++ after) hname ends)
        before start depth
      have ih := ih (before ++ name) after depth
      simpa using hpiece.trans ih
  | @parenthesis rest alone hrest ih =>
      obtain ⟨y, tail, rfl⟩ := hrest.exists_cons
      have hpiece := readOn_piece (@isPiece_parenthesis (y :: tail ++ after) alone)
        before start depth
      have ih := ih (before ++ ['(']) after depth
      simpa using hpiece.trans ih
  | @star rest alone hrest ih =>
      obtain ⟨y, tail, rfl⟩ := hrest.exists_cons
      have hpiece := readOn_piece (@isPiece_star (y :: tail ++ after) alone) before start depth
      have ih := ih (before ++ ['*']) after depth
      simpa using hpiece.trans ih
  | @plain x rest single hx hrest ih =>
      have hpiece := readOn_piece (isPiece_plain single hx (rest ++ after)) before start depth
      have ih := ih (before ++ [x]) after depth
      simpa using hpiece.trans ih

/-! ## Calls -/

/-- A comment is read in full behind its opening parenthesis. -/
theorem readComment_between (htext : CommentRest text) (before after : List Char)
    (start : Place) :
    readComment ⟨.between before ('*' :: (text ++ after)), start, none⟩ =
      (true, ⟨.between (before ++ '*' :: text) after, start, none⟩) := by
  have hrest := readOn_rest htext (before ++ ['*']) after start 0
  rw [readOn, readOn] at hrest
  simpa [readComment] using hrest

namespace State

variable {s : State} {accepted : Acceptance Kind}

/-- A call that finds a parenthesis behind whitespace claims the comment that is read there. -/
theorem scan_readComment (hopen : s.inString = false) (haccepted : .comment ∈ accepted)
    {origin : Place} {c : Cursor} (hparenthesis : (origin.skipWhile isSpace).lookahead = '(')
    (hread : readComment (Cursor.begin (origin.skipWhile isSpace)).consume = (true, c)) :
    s.scan accepted (.begin origin) = ⟨s, some (.comment, c)⟩ := by
  -- Neither a tag nor a bar comes first.
  have hfirst : beginsQuoted origin.lookahead = false ∧ origin.lookahead ≠ '|' := by
    by_cases hspace : isSpace origin.lookahead = true
    · exact ⟨beginsQuoted_of_isSpace hspace, ne_of_test (by decide) hspace⟩
    · have hstay : origin.skipWhile isSpace = origin :=
        Place.skipWhile_eq_self.mpr (by simp [hspace])
      rw [hstay] at hparenthesis
      rw [hparenthesis]
      decide
  rw [scan, Cursor.ignoreWhile_begin, if_neg, if_neg, if_neg]
  · rw [scanSpaced, if_neg, if_pos, hread]
    · simp [Cursor.sees, Cursor.lookahead, Cursor.begin, hopen, haccepted, hparenthesis]
    · simp [Cursor.sees, Cursor.lookahead, Cursor.begin, hparenthesis]
  · simp [hopen]
  · simp [Cursor.sees, Cursor.lookahead, Cursor.begin, hfirst]
  · simp [Cursor.lookahead, Cursor.begin, hfirst]

/-- A call in front of whitespace and a comment ignores the whitespace and claims the
comment. -/
theorem scan_comment (hopen : s.inString = false) (haccepted : .comment ∈ accepted)
    {gap : List Char} (hgap : ∀ c ∈ gap, isSpace c = true) (htext : CommentRest text)
    (before after : List Char) :
    s.scan accepted (.begin (.between before (gap ++ '(' :: '*' :: (text ++ after)))) =
      ⟨s, some (.comment, ⟨.between (before ++ gap ++ '(' :: '*' :: text) after,
        .between (before ++ gap) ('(' :: '*' :: (text ++ after)), none⟩)⟩ := by
  have hparenthesis : isSpace '(' = false := by decide
  have hskip := @Place.skipWhile_between isSpace before gap ('(' :: '*' :: (text ++ after))
    hgap (by simpa using hparenthesis)
  have hread := readComment_between htext (before ++ gap ++ ['(']) after
    (.between (before ++ gap) ('(' :: '*' :: (text ++ after)))
  refine scan_readComment hopen haccepted (by rw [hskip]; rfl) ?_
  rw [hskip]
  simpa [Cursor.begin] using hread

end State

/-- Comments are recognised exactly: outside strings, a call that accepts comments reads a
comment behind any whitespace as a whole, and changes nothing else. -/
theorem comment_recognised {s : State} (hopen : s.inString = false)
    {accepted : Acceptance Kind} (haccepted : .comment ∈ accepted) {gap : List Char}
    (hgap : ∀ c ∈ gap, isSpace c = true) (htext : IsComment text) (before after : List Char) :
    Yields [accepted] ⟨s, .between before (gap ++ (text ++ after))⟩ [(.comment, text)]
      ⟨s, .between (before ++ gap ++ text) after⟩ := by
  cases htext with
  | @mk rest hrest =>
      have hscan := State.scan_comment hopen haccepted hgap hrest before after
      exact Yields.claim hscan rfl rfl

/-- A comment with another one inside, behind a string that looks like a closer. -/
theorem comment_recognised_nested :
    State.initial.inString = false ∧
      .comment ∈ (.ofList [.comment] : Acceptance Kind) ∧
      (∀ c ∈ [' '], isSpace c = true) ∧
      IsComment ['(', '*', '\"', '*', ')', '\"', '(', '*', '*', ')', '*', ')'] ∧
      Yields [(.ofList [.comment] : Acceptance Kind)]
        ⟨State.initial, .between []
          [' ', '(', '*', '\"', '*', ')', '\"', '(', '*', '*', ')', '*', ')', ')']⟩
        [(Kind.comment, ['(', '*', '\"', '*', ')', '\"', '(', '*', '*', ')', '*', ')'])]
        ⟨State.initial, .between
          [' ', '(', '*', '\"', '*', ')', '\"', '(', '*', '*', ')', '*', ')'] [')']⟩ := by
  have haccepted : .comment ∈ (.ofList [.comment] : Acceptance Kind) := by decide
  have hgap : ∀ c ∈ [' '], isSpace c = true := List.forall_mem_singleton.mpr (by decide)
  have hstring : StringRest ['*', ')', '\"'] :=
    .plain (by decide) (by decide) (.plain (by decide) (by decide) .close)
  have hinside : CommentRest ['(', '*', '*', ')', '*', ')'] := .comment .close .close
  have htext : IsComment ['(', '*', '\"', '*', ')', '\"', '(', '*', '*', ')', '*', ')'] :=
    .mk (.string hstring hinside)
  exact ⟨rfl, haccepted, hgap, htext, comment_recognised rfl haccepted hgap htext [] [')']⟩

end ContextLexer.Delimited
