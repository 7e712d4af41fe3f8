/-
# What the readers of delimited literals consume

A comment is read by many readers that call one another. None of them ignores a character
or marks an end, so whatever it is that they read, the token that they read it for begins
where they began and ends where they stop. None of them looks beyond the next character
either, so where they stop in front of one, they have not seen what comes behind it.
-/

import ContextLexer.Delimited.Comment
import ContextLexer.Delimited.LineDirective
import ContextLexer.Proofs.Nearsighted

namespace ContextLexer.Delimited

open Cursor (GoesOn)

/-! ## Quoted strings -/

theorem nearsighted_readTag : Nearsighted id readTag := by
  refine .bind (.takeWhile isTagLetter) fun letters => ?_
  have hbar : Nearsighted id fun c : Cursor =>
      if c.sees '|' then (some letters, c.consume) else (none, c) :=
    .ite_sees '|' (.telling _ .consume) (.told none)
  refine ⟨_, hbar, ?_⟩
  rintro c after h
  cases h
  rfl

/-- A tag that is found consists of the letters that were consumed, with a bar behind
them. -/
theorem consumes_readTag {c after : Cursor} {tag : List Char}
    (h : readTag c = (some tag, after)) :
    (∀ x ∈ tag, isTagLetter x = true) ∧ c.Consumes (tag ++ ['|']) after := by
  rw [readTag] at h
  split at h
  case isTrue hbar =>
    cases h
    have hend := Cursor.atEnd_of_sees hbar (by decide)
    exact ⟨List.all_eq_true.mp List.all_takeWhile,
      (Cursor.Consumes.consumeWhile isTagLetter c).trans (.of_sees hbar hend)⟩
  case isFalse => cases h

theorem nearsighted_meetTag (tag : List Char) : Nearsighted id (meetTag tag) := by
  refine .bind (.consumeWord tag) fun complete => ?_
  refine ⟨_, .tell fun x => complete && x = '}', ?_⟩
  intro c after hword
  rw [meetTag, hword]
  rfl

/-- A tag that is met has been consumed, and a brace is next. -/
theorem consumes_meetTag {tag : List Char} {c after : Cursor}
    (h : meetTag tag c = (true, after)) : c.Consumes tag after ∧ after.lookahead = '}' := by
  rcases hword : c.consumeWord tag with ⟨complete, after'⟩
  simp only [meetTag, hword, Prod.mk.injEq, Bool.and_eq_true] at h
  obtain ⟨⟨rfl, hbrace⟩, rfl⟩ := h
  exact ⟨.consumeWord hword (Cursor.atEnd_of_sees hbrace (by decide)),
    by simpa [Cursor.sees] using hbrace⟩

theorem nearsighted_quotedTurn (tag : List Char) :
    Nearsighted (Turn.outlook id) (quotedTurn tag) := by
  refine .ite_sees '|' ?_ (.ite_atEnd (.done (.told false)) (.again .consume))
  refine .bind ((nearsighted_meetTag tag).after .consume) fun met => ?_
  cases met with
  | true =>
      refine ⟨_, .done (.told true), ?_⟩
      intro c after hmeet
      rw [hmeet]
  | false =>
      refine ⟨_, .again .refl, ?_⟩
      intro c after hmeet
      rw [hmeet]

theorem nearsighted_readQuoted : Nearsighted id readQuoted := by
  refine .bind nearsighted_readTag fun tag => ?_
  cases tag with
  | none =>
      refine ⟨_, .told false, ?_⟩
      intro c after htag
      rw [readQuoted, htag]
  | some tag =>
      refine ⟨_, (nearsighted_quotedTurn tag).run (quotedTurn_shrinks tag), ?_⟩
      intro c after htag
      rw [readQuoted, htag]

/-! ## Strings, names and character literals -/

theorem nearsighted_stringTurn : Nearsighted (Turn.outlook Cursor.silent) stringTurn := by
  refine .ite_sees '\\' ?_ (.ite_sees '\"' ?_ (.ite_atEnd ?_ ?_))
  · exact .again (.after .consume .consume)
  · exact .done .consume
  · exact .done .refl
  · exact .again .consume

theorem nearsighted_readString : Nearsighted Cursor.silent readString :=
  nearsighted_stringTurn.run stringTurn_shrinks

theorem nearsighted_readIdentifier : Nearsighted id readIdentifier := by
  refine .ite (fun x _ => beginsIdentifier x = true) ?_ (.told false)
  exact (Nearsighted.telling true (.consumeWhile continuesIdentifier)).after .consume

theorem nearsighted_nameTurn : Nearsighted (Turn.outlook id) nameTurn := by
  refine .bind nearsighted_readIdentifier fun found => ?_
  cases found with
  | true =>
      refine ⟨_, .ite_sees '.' (.again .consume) (.done (.told true)), ?_⟩
      intro c after hname
      rw [nameTurn, hname]
  | false =>
      refine ⟨_, .done (.told false), ?_⟩
      intro c after hname
      rw [nameTurn, hname]

theorem nearsighted_readDottedName : Nearsighted id readDottedName :=
  nearsighted_nameTurn.run nameTurn_shrinks

theorem nearsighted_closeLiteral (last : Option Char) : Nearsighted id (closeLiteral last) :=
  .ite_sees '\'' (.telling none .consume) (.told last)

theorem nearsighted_codeLiteral (digit : Char → Bool) (count : Nat) :
    Nearsighted id (codeLiteral digit count) := by
  refine .bind (.consumeCount digit count) fun complete => ?_
  cases complete with
  | true =>
      refine ⟨_, nearsighted_closeLiteral none, ?_⟩
      intro c after hdigits
      rw [codeLiteral, hdigits]
  | false =>
      refine ⟨_, .told none, ?_⟩
      intro c after hdigits
      rw [codeLiteral, hdigits]

/-- The character that is left undecided is the one that was looked at. -/
theorem nearsighted_closeLast :
    Nearsighted id fun c : Cursor => closeLiteral (some c.lookahead) c.consume :=
  .look (fun x _ c => closeLiteral (some x) c.consume) fun x _ =>
    (nearsighted_closeLiteral (some x)).after .consume

theorem nearsighted_escapeLiteral : Nearsighted id escapeLiteral := by
  have hcode (digit : Char → Bool) (count : Nat) :
      Nearsighted id fun c : Cursor => codeLiteral digit count c.consume :=
    (nearsighted_codeLiteral digit count).after .consume
  refine .ite (fun x _ => x.isDigit = true) (hcode Char.isDigit 2) ?_
  refine .ite (fun x _ => x = 'x') (hcode isHexDigit 2) ?_
  refine .ite (fun x _ => x = 'o') (hcode isOctalDigit 3) ?_
  exact .ite (fun x _ => x ∈ escapable) nearsighted_closeLast (.told none)

theorem nearsighted_characterLiteral : Nearsighted id characterLiteral := by
  refine .ite (fun x _ => x = '\\') (nearsighted_escapeLiteral.after .consume) ?_
  refine .ite (fun x _ => x = '\'') (nearsighted_closeLiteral none) ?_
  refine .ite_atEnd (.told none) ?_
  exact .ite (fun x _ => x = '\x00') ((nearsighted_closeLiteral none).after .consume)
    nearsighted_closeLast

theorem nearsighted_readQuotedToBrace : Nearsighted Cursor.silent readQuotedToBrace := by
  refine .bind nearsighted_readQuoted fun closed => ?_
  cases closed with
  | true =>
      refine ⟨_, .consume, ?_⟩
      intro c after hread
      rw [readQuotedToBrace, hread]
  | false =>
      refine ⟨_, .refl, ?_⟩
      intro c after hread
      rw [readQuotedToBrace, hread]

theorem nearsighted_readBraced : Nearsighted Cursor.silent readBraced := by
  refine .ite_sees '%' ?_ nearsighted_readQuotedToBrace
  have hsign : Nearsighted Cursor.silent fun c => if c.sees '%' then c.consume else c :=
    .ite_sees '%' .consume .refl
  refine .bind ((nearsighted_readDottedName.after hsign).after .consume) fun found => ?_
  cases found with
  | true =>
      refine ⟨_, nearsighted_readQuotedToBrace.after (.consumeWhile isSpace), ?_⟩
      intro c after hname
      simp only [hname]
  | false =>
      refine ⟨_, .refl, ?_⟩
      intro c after hname
      simp only [hname]

/-! ## Comments and line directives -/

/-- What a piece is and leaves pending, and the cursor that it leaves. -/
def Piece.outlook (found : Piece × Spot) : (Piece × Option Char) × Cursor :=
  ((found.1, found.2.pending), found.2.cursor)

theorem nearsighted_found (kind : Piece) {move : Cursor → Cursor}
    (hmove : Nearsighted Cursor.silent move) :
    Nearsighted Piece.outlook fun c => (kind, ⟨move c, none⟩) :=
  hmove.map (fun _ => (kind, none)) fun _ _ _ h => congrArg (_, ·) (congrArg Prod.snd h)

theorem nearsighted_specialPiece (x : Char) : Nearsighted Piece.outlook (specialPiece x) := by
  refine .ite (fun _ _ => x = '(') ?_ (.ite (fun _ _ => x = '*') ?_
    (.ite (fun _ _ => x = '\'') ?_ (.ite (fun _ _ => x = '\"') ?_ ?_)))
  · exact .ite_sees '*' (nearsighted_found .opener .consume) (nearsighted_found .other .refl)
  · exact .ite_sees ')' (nearsighted_found .closer .consume) (nearsighted_found .other .refl)
  · refine nearsighted_characterLiteral.map (fun pending => (.other, pending)) ?_
    intro c pending after (hread : characterLiteral c = _)
    simp only [Piece.outlook, hread]
  · exact nearsighted_found .other nearsighted_readString
  · exact nearsighted_found .other nearsighted_readBraced

theorem nearsighted_plainPiece (spent : Bool) :
    Nearsighted Piece.outlook (plainPiece spent) := by
  refine .bind nearsighted_readIdentifier fun found => ?_
  cases found with
  | true =>
      refine ⟨_, nearsighted_found .other .refl, ?_⟩
      intro c after hname
      rw [plainPiece, hname]
  | false =>
      cases spent with
      | true =>
          refine ⟨_, nearsighted_found .other .refl, ?_⟩
          intro c after hname
          rw [plainPiece, hname]
          rfl
      | false =>
          refine ⟨_, nearsighted_found .other .consume, ?_⟩
          intro c after hname
          rw [plainPiece, hname]
          rfl

theorem nearsighted_piece (pending : Option Char) :
    Nearsighted Piece.outlook fun c => piece ⟨c, pending⟩ := by
  cases pending with
  | some x =>
      refine .ite (fun _ _ => isSpecial x = true) (nearsighted_specialPiece x) ?_
      refine .ite (fun _ _ => x = '\x00') ?_ (nearsighted_plainPiece true)
      exact .ite_atEnd (nearsighted_found .missing .refl) (nearsighted_found .other .refl)
  | none =>
      refine .ite (fun x _ => isSpecial x = true) ?_ (.ite_atEnd ?_
        (.ite (fun x _ => x = '\x00') ?_ ?_))
      · exact .look (fun x _ c => specialPiece x c.consume) fun x _ =>
          (nearsighted_specialPiece x).after .consume
      · exact nearsighted_found .missing .refl
      · exact nearsighted_found .other .consume
      · exact nearsighted_plainPiece false

theorem goesOn_piece (spot : Spot) : spot.cursor.GoesOn (piece spot).2.cursor :=
  (nearsighted_piece spot.pending).goesOn spot.cursor

theorem commentTurn_goesOn {c : Cursor} {now : Open} (h : c.GoesOn now.spot.cursor) :
    (commentTurn now).LeadsTo (fun later => c.GoesOn later.spot.cursor)
      fun result => c.GoesOn result.2 := by
  have hpiece := h.trans (goesOn_piece now.spot)
  rw [commentTurn]
  split
  case h_2 spot hread =>
    rw [hread] at hpiece
    split <;> exact hpiece
  all_goals
    next spot hread =>
      rw [hread] at hpiece
      exact hpiece

theorem goesOn_readComment (c : Cursor) : c.GoesOn (readComment c).2 := by
  rw [readComment]
  split
  · exact Turn.run_of_leadsTo (fun now : Open => c.GoesOn now.spot.cursor)
      (fun _ => commentTurn_goesOn) (GoesOn.consume c)
  · exact .refl c

theorem goesOn_lineDirective {c after : Cursor} (h : lineDirective? c = some after) :
    c.GoesOn after := by
  simp only [lineDirective?, Option.ite_none_left_eq_some, Option.some.injEq] at h
  obtain ⟨-, -, -, rfl⟩ := h
  have hnumber := (GoesOn.consume c).trans (.consumeWhile isBlank _)
  have hname := (hnumber.trans (.consumeWhile Char.isDigit _)).trans (.consumeWhile isBlank _)
  refine ((GoesOn.trans ?_ (.consumeWhile _ _)).trans (.consume _)).trans (.consumeWhile _ _)
  exact hname.trans (.consume _)

end ContextLexer.Delimited
