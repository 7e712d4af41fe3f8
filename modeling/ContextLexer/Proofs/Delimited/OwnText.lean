/-
# Comments are decided by their own text

The closer of a comment is its last piece, and to read it the star and the parenthesis have to
be consumed. Every piece before it therefore stops in front of a character of the comment. The
readers of pieces are nearsighted, so they read the same in any text that begins with the
comment, and the comment is found there as it was, whatever comes behind it.
-/

import ContextLexer.Proofs.Delimited.Change
import ContextLexer.Proofs.Delimited.Comment
import ContextLexer.Proofs.Delimited.Recursion

namespace ContextLexer

namespace Place

/-- A place with the same text in front of it up to another place, and with other text from
there on. What is behind it stays, and so does its offset. -/
def replaceBehind (p stop : Place) (other : List Char) : Place :=
  ⟨p.passed, p.since stop ++ other⟩

theorem replaceBehind_between (before text rest other : List Char) :
    (between before (text ++ rest)).replaceBehind (between (before ++ text) rest) other =
      between before (text ++ other) := by
  rw [replaceBehind, since_between]
  rfl

end Place

namespace Delimited

open Cursor (GoesOn)

variable {text : List Char} {pending : Option Char} {c d after : Cursor}

/-! ## Undecided characters -/

/-- A character is left undecided right behind it. -/
def Holds (c : Cursor) (result : Option Char × Cursor) : Prop :=
  ∃ text, c.Consumes (text ++ result.1.toList) result.2

theorem Holds.of_none {result : Option Char × Cursor} (hnone : result.1 = none)
    (h : c.GoesOn result.2) : Holds c result := by
  obtain ⟨text, htext⟩ := h
  exact ⟨text, by simpa [hnone] using htext⟩

theorem Holds.behind {now : Cursor} {result : Option Char × Cursor} (h : Holds now result)
    (hgoes : c.GoesOn now) : Holds c result := by
  obtain ⟨text, htext⟩ := h
  obtain ⟨more, hmore⟩ := hgoes
  exact ⟨more ++ text, by simpa using hmore.trans htext⟩

theorem holds_closeLiteral_none (c : Cursor) : Holds c (closeLiteral none c) := by
  rw [closeLiteral]
  split
  · exact .of_none rfl (.consume c)
  · exact .of_none rfl (.refl c)

theorem holds_closeLiteral_some (hend : c.atEnd = false) :
    Holds c (closeLiteral (some c.lookahead) c.consume) := by
  rw [closeLiteral]
  split
  · exact .of_none rfl ((GoesOn.consume c).trans (.consume _))
  · exact ⟨[], .consume hend⟩

theorem holds_codeLiteral (digit : Char → Bool) (count : Nat) (c : Cursor) :
    Holds c (codeLiteral digit count c) := by
  have hcount := (Nearsighted.consumeCount digit count).goesOn c
  rw [codeLiteral]
  split
  case h_1 after hdigits =>
    rw [hdigits] at hcount
    exact (holds_closeLiteral_none after).behind hcount
  case h_2 after hdigits =>
    rw [hdigits] at hcount
    exact .of_none rfl hcount

theorem holds_escapeLiteral (c : Cursor) : Holds c (escapeLiteral c) := by
  rw [escapeLiteral]
  split
  · exact (holds_codeLiteral _ _ _).behind (.consume c)
  split
  · exact (holds_codeLiteral _ _ _).behind (.consume c)
  split
  · exact (holds_codeLiteral _ _ _).behind (.consume c)
  split
  case isTrue hescapable =>
    have hnul : c.lookahead ≠ '\x00' := ne_of_mem_of_not_mem hescapable (by decide)
    exact holds_closeLiteral_some (Place.atEnd_of_lookahead hnul)
  case isFalse => exact .of_none rfl (.refl c)

theorem holds_characterLiteral (c : Cursor) : Holds c (characterLiteral c) := by
  rw [characterLiteral]
  split
  · exact (holds_escapeLiteral _).behind (.consume c)
  split
  · exact holds_closeLiteral_none c
  split
  · exact .of_none rfl (.refl c)
  split
  · exact (holds_closeLiteral_none _).behind (.consume c)
  · next hend _ => exact holds_closeLiteral_some (by simpa using hend)

theorem holds_specialPiece (x : Char) (c : Cursor) :
    Holds c ((specialPiece x c).2.pending, (specialPiece x c).2.cursor) := by
  rw [specialPiece]
  split
  · split
    · exact .of_none rfl (.consume c)
    · exact .of_none rfl (.refl c)
  split
  · split
    · exact .of_none rfl (.consume c)
    · exact .of_none rfl (.refl c)
  split
  · exact holds_characterLiteral c
  split
  · exact .of_none rfl (nearsighted_readString.goesOn c)
  · exact .of_none rfl (nearsighted_readBraced.goesOn c)

theorem holds_plainPiece (spent : Bool) (c : Cursor) :
    Holds c ((plainPiece spent c).2.pending, (plainPiece spent c).2.cursor) := by
  have hnone : (plainPiece spent c).2.pending = none := by
    rw [plainPiece]
    split <;> rfl
  exact .of_none hnone ((nearsighted_plainPiece spent).goesOn c)

theorem holds_piece (spot : Spot) :
    Holds spot.cursor ((piece spot).2.pending, (piece spot).2.cursor) := by
  obtain ⟨c, pending⟩ := spot
  cases pending with
  | some x =>
      simp only [piece]
      split
      · exact holds_specialPiece x c
      split
      · split <;> exact .of_none rfl (.refl c)
      · exact holds_plainPiece true c
  | none =>
      simp only [piece]
      split
      · exact (holds_specialPiece _ _).behind (.consume c)
      split
      · exact .of_none rfl (.refl c)
      split
      · exact .of_none rfl (.consume c)
      · exact holds_plainPiece false c

/-! ## Closers -/

theorem specialPiece_eq_closer_iff {x : Char} :
    specialPiece x c = (.closer, ⟨after, none⟩) ↔ x = '*' ∧ c.Consumes [')'] after := by
  rw [Cursor.Consumes.cons_iff, Cursor.Consumes.nil_iff]
  constructor
  · intro h
    rw [specialPiece] at h
    split at h
    · split at h <;> cases h
    split at h
    case isTrue hx =>
      split at h
      case isTrue hsees =>
        cases h
        exact ⟨hx, Cursor.atEnd_of_sees hsees (by decide), by simpa [Cursor.sees] using hsees, rfl⟩
      case isFalse => cases h
    split at h
    · cases h
    split at h <;> cases h
  · rintro ⟨rfl, -, hparenthesis, rfl⟩
    simp [specialPiece, Cursor.sees, hparenthesis]

theorem plainPiece_ne_closer (spent : Bool) (c : Cursor) : (plainPiece spent c).1 ≠ .closer := by
  rw [plainPiece]
  split <;> exact Piece.noConfusion

/-- A piece is a closer exactly if what is consumed for it completes a star and a
parenthesis. -/
theorem piece_eq_closer_iff :
    piece ⟨c, pending⟩ = (.closer, ⟨after, none⟩) ↔
      ∃ text, pending.toList ++ text = ['*', ')'] ∧ c.Consumes text after := by
  have hplain (spent : Bool) : plainPiece spent c ≠ (.closer, ⟨after, none⟩) := fun h =>
    plainPiece_ne_closer spent c (congrArg Prod.fst h)
  have hstar : isSpecial '*' = true := by decide
  cases pending with
  | some x =>
      have hjoin : (∃ text, (some x).toList ++ text = ['*', ')'] ∧ c.Consumes text after) ↔
          x = '*' ∧ c.Consumes [')'] after := by
        simp [and_assoc]
      rw [hjoin, ← specialPiece_eq_closer_iff]
      simp only [piece]
      split
      · exact Iff.rfl
      case isFalse hx =>
        have hother : specialPiece x c ≠ (.closer, ⟨after, none⟩) := fun h => by
          rw [(specialPiece_eq_closer_iff.mp h).1] at hx
          exact hx hstar
        refine iff_of_false ?_ hother
        split
        · split <;> exact fun h => by cases h
        · exact hplain true
  | none =>
      have hjoin : (∃ text, none.toList ++ text = ['*', ')'] ∧ c.Consumes text after) ↔
          c.atEnd = false ∧ specialPiece c.lookahead c.consume = (.closer, ⟨after, none⟩) := by
        simp [specialPiece_eq_closer_iff, Cursor.Consumes.cons_iff]
      rw [hjoin]
      simp only [piece]
      split
      case isTrue hx =>
        have hnul : c.lookahead ≠ '\x00' := fun hnul => by
          rw [hnul] at hx
          exact absurd hx (by decide)
        exact (and_iff_right (Place.atEnd_of_lookahead hnul)).symm
      case isFalse hx =>
        have hother : specialPiece c.lookahead c.consume ≠ (.closer, ⟨after, none⟩) := fun h => by
          rw [(specialPiece_eq_closer_iff.mp h).1] at hx
          exact hx hstar
        refine iff_of_false ?_ fun h => hother h.2
        split
        · exact fun h => by cases h
        split
        · exact fun h => by cases h
        · exact hplain false

/-- A piece is read the same where what is consumed for it and something more comes next. -/
theorem piece_decided {spot later : Spot} {kind : Piece} {more rest other : List Char}
    (hpiece : piece spot = (kind, later)) (htext : spot.cursor.Consumes text later.cursor)
    (hmore : later.cursor.place.ahead = more ++ rest) (hsome : more ≠ [])
    (hd : d.place.ahead = text ++ (more ++ other)) :
    ∃ spot', piece ⟨d, spot.pending⟩ = (kind, spot') ∧ d.Consumes text spot'.cursor ∧
      spot'.pending = later.pending ∧ spot'.cursor.place.ahead = more ++ other := by
  have hread : Piece.outlook (piece ⟨spot.cursor, spot.pending⟩) =
      ((kind, later.pending), later.cursor) := by
    rw [hpiece, Piece.outlook]
  have htext : spot.cursor.Consumes text
      (Piece.outlook (piece ⟨spot.cursor, spot.pending⟩)).2 := by rwa [hread]
  obtain ⟨htold, hconsumes, hahead⟩ :=
    (nearsighted_piece spot.pending).decided htext (by rwa [hread]) hsome hd
  rw [hread] at htold
  obtain ⟨hkind, hpending⟩ := Prod.mk.inj htold
  exact ⟨_, Prod.ext hkind rfl, hconsumes, hpending, hahead⟩

/-! ## Runs -/

/-- Read on from a place in a comment. -/
def readFrom (now : Open) : Bool × Cursor :=
  Turn.run commentTurn (fun now => now.spot.size) commentTurn_shrinks now

/-- What a turn does besides reading a piece depends on the kind of the piece only. -/
theorem commentTurn_again {now later : Open} (h : commentTurn now = .again later) :
    ∃ kind, piece now.spot = (kind, later.spot) ∧ ∀ spot spot', piece spot = (kind, spot') →
      commentTurn ⟨spot, now.depth⟩ = .again ⟨spot', later.depth⟩ := by
  rw [commentTurn] at h
  split at h
  case h_2 after hpiece =>
    split at h
    · cases h
    · next hdepth =>
      cases h
      refine ⟨_, hpiece, fun spot spot' hspot => ?_⟩
      rw [commentTurn, hspot]
      exact if_neg hdepth
  case h_4 => cases h
  all_goals
    next after hpiece =>
      cases h
      refine ⟨_, hpiece, fun spot spot' hspot => ?_⟩
      rw [commentTurn, hspot]

/-- A run that is complete has a text of its own. It consumes this text, which completes a
closer, and wherever the text comes next, it is complete as well and consumes the text. -/
def Owns (now : Open) (result : Bool × Cursor) : Prop :=
  result.1 = true → ∃ text, now.spot.cursor.Consumes text result.2 ∧
    ['*', ')'] <:+ now.spot.pending.toList ++ text ∧
    ∀ d other, d.place.ahead = text ++ other → ∃ later,
      readFrom ⟨⟨d, now.spot.pending⟩, now.depth⟩ = (true, later) ∧ d.Consumes text later

/-- The last piece of a comment is all of the text. -/
theorem owns_of_done {now : Open} {result : Bool × Cursor} (h : commentTurn now = .done result) :
    Owns now result := by
  intro hcomplete
  rw [commentTurn] at h
  split at h
  case h_2 spot hpiece =>
    split at h
    case isTrue hdepth =>
      cases h
      obtain ⟨hnone, -⟩ := piece_balanced hpiece (.inr rfl)
      have hcloser :
          piece ⟨now.spot.cursor, now.spot.pending⟩ = (.closer, ⟨spot.cursor, none⟩) := by
        rw [← hnone]
        exact hpiece
      obtain ⟨text, hjoin, htext⟩ := piece_eq_closer_iff.mp hcloser
      refine ⟨text, htext, hjoin ▸ List.suffix_refl _, ?_⟩
      intro d other hd
      obtain ⟨later, hlater⟩ := Cursor.Consumes.exists_of_ahead hd
      refine ⟨later, ?_, hlater⟩
      apply Turn.run_of_done
      rw [commentTurn, piece_eq_closer_iff.mpr ⟨text, hjoin, hlater⟩]
      exact if_pos hdepth
    case isFalse => cases h
  case h_4 =>
    cases h
    cases hcomplete
  all_goals cases h

/-- The pieces in front of the last one are read the same, since they stop in front of it. -/
theorem owns_of_again {now later : Open} {result : Bool × Cursor}
    (h : commentTurn now = .again later) (hlater : Owns later result) : Owns now result := by
  intro hcomplete
  obtain ⟨more, hmore, hcloser, hown⟩ := hlater hcomplete
  obtain ⟨kind, hpiece, hturn⟩ := commentTurn_again h
  obtain ⟨text, htext⟩ := holds_piece now.spot
  rw [hpiece] at htext
  dsimp only at htext
  have hsome : more ≠ [] := by
    rintro rfl
    have hlength := hcloser.length_le
    cases hpending : later.spot.pending <;> simp [hpending] at hlength
  refine ⟨text ++ later.spot.pending.toList ++ more, htext.trans hmore, ?_, ?_⟩
  · have hsplit : now.spot.pending.toList ++ (text ++ later.spot.pending.toList ++ more) =
        (now.spot.pending.toList ++ text) ++ (later.spot.pending.toList ++ more) := by simp
    rw [hsplit]
    exact hcloser.trans (List.suffix_append _ _)
  · intro d other hd
    obtain ⟨spot, hfirst, hconsumes, hpending, hahead⟩ :=
      piece_decided hpiece htext hmore.leads.ahead_eq hsome (hd.trans (List.append_assoc _ _ _))
    obtain ⟨last, hlast, hrest⟩ := hown spot.cursor other hahead
    refine ⟨last, ?_, hconsumes.trans hrest⟩
    rw [← hlast, ← hpending]
    exact Turn.run_of_again (hturn _ _ hfirst)

theorem owns_readFrom (now : Open) : Owns now (readFrom now) := by
  refine Turn.run_induction Owns ?_ ?_ now
  · exact fun _ _ => owns_of_done
  · exact fun _ _ _ => owns_of_again

/-! ## Comments -/

/-- A text that is a comment by itself: it is read as one wherever it comes next. -/
structure OwnText (text : List Char) : Prop where
  /-- It begins with an opener and ends with a closer. -/
  shape : ∃ inside, text = '(' :: '*' :: (inside ++ ['*', ')'])
  /-- It is read behind its parenthesis, whatever comes behind it. -/
  read : ∀ (d : Cursor) (other : List Char), d.place.ahead = text ++ other → ∃ later,
    readComment d.consume = (true, later) ∧ d.Consumes text later

/-- What is read as a comment is one by itself. -/
theorem ownText_of_readComment (hparenthesis : c.sees '(' = true)
    (h : readComment c.consume = (true, after)) : ∃ text, OwnText text ∧ c.Consumes text after := by
  have hfirst : c.Consumes ['('] c.consume :=
    .of_sees hparenthesis (Cursor.atEnd_of_sees hparenthesis (by decide))
  rw [readComment] at h
  split at h
  case isTrue hstar =>
    have hsecond : c.consume.Consumes ['*'] c.consume.consume :=
      .of_sees hstar (Cursor.atEnd_of_sees hstar (by decide))
    have hread : readFrom ⟨⟨c.consume.consume, none⟩, 1⟩ = (true, after) := h
    obtain ⟨rest, hrest, ⟨inside, rfl⟩, hown⟩ := owns_readFrom _ (congrArg Prod.fst hread)
    rw [hread] at hrest
    refine ⟨_, ⟨⟨inside, rfl⟩, ?_⟩, hfirst.trans (hsecond.trans hrest)⟩
    intro d other hd
    obtain ⟨hopening, hahead⟩ := Cursor.Consumes.next_of_ahead hd
    obtain ⟨hstar, hinside⟩ := Cursor.Consumes.next_of_ahead hahead
    obtain ⟨later, hlater, hclosing⟩ := hown d.consume.consume other hinside
    refine ⟨later, ?_, hopening.trans (hstar.trans hclosing)⟩
    rw [readComment, if_pos]
    · exact hlater
    · simp [Cursor.sees, Cursor.lookahead, Place.lookahead, hahead]
  case isFalse => cases h

/-- A comment by itself does not go on behind another one. -/
theorem OwnText.eq_of_prefix {longer : List Char} (hfirst : OwnText text)
    (hsecond : OwnText longer) (h : text <+: longer) : longer = text := by
  obtain ⟨more, rfl⟩ := h
  have hnil : text ++ more = (text ++ more) ++ [] := (List.append_nil _).symm
  obtain ⟨later, hread, hconsumes⟩ := hfirst.read (.begin (.first (text ++ more))) more rfl
  obtain ⟨last, hagain, hall⟩ := hsecond.read (.begin (.first (text ++ more))) [] hnil
  rw [hread] at hagain
  cases hagain
  exact hall.text_unique hconsumes

namespace State

variable {s : State} {accepted : Acceptance Kind} {origin : Place}

/-- A comment is claimed only where one has been read behind whitespace. -/
theorem readComment_of_claim
    (h : (s.scan accepted (.begin origin)).claim = some (.comment, after)) :
    s.inString = false ∧ .comment ∈ accepted ∧
      (origin.skipWhile isSpace).lookahead = '(' ∧
      readComment (Cursor.begin (origin.skipWhile isSpace)).consume = (true, after) := by
  rw [scan] at h
  split at h
  · rw [beginQuoted] at h
    split at h <;> cases h
  split at h
  · rw [endQuoted] at h
    split at h <;> cases h
  split at h
  · cases h
  rw [Cursor.ignoreWhile_begin, scanSpaced] at h
  split at h
  · cases hdirective : lineDirective? (.begin (origin.skipWhile isSpace)) <;>
      simp [hdirective] at h
  split at h
  case isTrue hcomment =>
    obtain ⟨hopen, haccepted, hparenthesis⟩ := hcomment
    split at h
    case h_1 c hread =>
      cases h
      exact ⟨by simpa using hopen, haccepted,
        of_decide_eq_true hparenthesis, hread⟩
    case h_2 => cases h
  split at h
  · cases h
  split at h <;> cases h

end State

/-! ## Calls -/

section Calls

variable {s : State} {accepted : Acceptance Kind} {origin : Place} {token : Token Kind}
  {gap : List Char}

/-- A call claims a comment by itself behind whitespace, whatever comes behind it. -/
theorem call_ownText (hopen : s.inString = false) (haccepted : .comment ∈ accepted)
    (hgap : ∀ x ∈ gap, isSpace x = true) (hown : OwnText text) (before rest : List Char) :
    Scanner.call s accepted (.between before (gap ++ (text ++ rest))) =
      ⟨s, some ⟨.comment, .between (before ++ gap) (text ++ rest),
        .between (before ++ gap ++ text) rest⟩, .between (before ++ gap ++ text) rest⟩ := by
  have hparenthesis : (Place.between (before ++ gap) (text ++ rest)).lookahead = '(' := by
    obtain ⟨inside, rfl⟩ := hown.shape
    rfl
  have hskip : (Place.between before (gap ++ (text ++ rest))).skipWhile isSpace =
      .between (before ++ gap) (text ++ rest) := by
    refine Place.skipWhile_between hgap ?_
    obtain ⟨inside, rfl⟩ := hown.shape
    have hspace : isSpace '(' = false := by decide
    simpa using hspace
  obtain ⟨later, hread, hconsumes⟩ :=
    hown.read (.begin (.between (before ++ gap) (text ++ rest))) rest rfl
  have hscan : s.scan accepted (.begin (.between before (gap ++ (text ++ rest)))) =
      ⟨s, some (.comment, later)⟩ :=
    State.scan_readComment hopen haccepted (by rw [hskip, hparenthesis]) (by rw [hskip, hread])
  have hplace : later.place = .between (before ++ gap ++ text) rest :=
    hconsumes.leads.skip_eq.symm.trans (Place.skip_between (before ++ gap) text rest)
  have hstop : later.stop = later.place := by
    rw [Cursor.stop, hconsumes.mark_eq]
    rfl
  simp only [Scanner.call, Scanner.scan, hscan, settle, hconsumes.token_eq, hstop, hplace]

/-- A comment that a call returns is one by itself, behind whitespace. -/
theorem exists_ownText (h : (Scanner.call s accepted origin).token = some token)
    (hkind : token.kind = .comment) :
    s.inString = false ∧ .comment ∈ accepted ∧ ∃ before gap text rest,
      (∀ x ∈ gap, isSpace x = true) ∧ OwnText text ∧ token.text = text ∧
      origin = .between before (gap ++ (text ++ rest)) ∧
      token = ⟨.comment, .between (before ++ gap) (text ++ rest),
        .between (before ++ gap ++ text) rest⟩ := by
  obtain ⟨c, hclaim, -⟩ := Scanner.exists_claim_of_token h
  rw [hkind] at hclaim
  obtain ⟨hopen, haccepted, hparenthesis, hread⟩ := State.readComment_of_claim hclaim
  have hsees : (Cursor.begin (origin.skipWhile isSpace)).sees '(' = true :=
    decide_eq_true hparenthesis
  obtain ⟨text, hown, hconsumes⟩ := ownText_of_readComment hsees hread
  obtain ⟨before, hbefore⟩ := origin.exists_between
  obtain ⟨gap, tail, htail, hgap, hstops⟩ := exists_run isSpace origin.ahead
  rw [htail] at hbefore
  subst hbefore
  rw [Place.skipWhile_between hgap hstops] at hconsumes
  have hahead : tail = text ++ c.place.ahead := hconsumes.leads.ahead_eq
  subst hahead
  rw [call_ownText hopen haccepted hgap hown] at h
  have htoken := (Option.some.inj h).symm
  refine ⟨hopen, haccepted, before, gap, text, _, hgap, hown, ?_, rfl, htoken⟩
  rw [htoken]
  exact Place.since_between _ _ _ _

/-- A comment is decided by its own text. A call that returns one returns a text that begins
with an opener and ends with a closer. Where this text and what is in front of it stay, and
other text or none comes behind it, the same call returns the comment again, at the same
offsets, and leaves the host and the scanner as it did. So no comment goes on behind the text
of another one, wherever and by whatever calls the two are found. -/
theorem comment_decided_by_own_text (h : (Scanner.call s accepted origin).token = some token)
    (hkind : token.kind = .comment) :
    (∃ inside, token.text = '(' :: '*' :: (inside ++ ['*', ')'])) ∧
    (∀ other, Scanner.call s accepted (origin.replaceBehind token.stop other) =
      ⟨s, some ⟨.comment, token.start.replaceBehind token.stop other,
        token.stop.replaceBehind token.stop other⟩,
        token.stop.replaceBehind token.stop other⟩) ∧
    ∀ (t : State) (wanted : Acceptance Kind) (p : Place) (found : Token Kind),
      (Scanner.call t wanted p).token = some found → found.kind = .comment →
      token.text <+: found.text → found.text = token.text := by
  obtain ⟨hopen, haccepted, before, gap, text, rest, hgap, hown, htext, horigin, htoken⟩ :=
    exists_ownText h hkind
  refine ⟨htext ▸ hown.shape, ?_, ?_⟩
  · intro other
    have hbegins := Place.replaceBehind_between before (gap ++ text) rest other
    have hstarts := Place.replaceBehind_between (before ++ gap) text rest other
    have hstops := Place.replaceBehind_between (before ++ gap ++ text) [] rest other
    simp only [List.append_assoc, List.append_nil, List.nil_append] at hbegins hstarts hstops
    rw [htoken, horigin]
    simp only [List.append_assoc, hbegins, hstarts, hstops]
    have hcall := call_ownText hopen haccepted hgap hown before other
    simpa only [List.append_assoc] using hcall
  · intro t wanted p found hfound hfoundKind hprefix
    obtain ⟨-, -, -, -, longer, -, -, hlonger, hfoundText, -⟩ := exists_ownText hfound hfoundKind
    rw [hfoundText, htext] at hprefix ⊢
    exact hown.eq_of_prefix hlonger hprefix

/-- A comment whose closer begins with a star that a quote has left undecided, in front of a
letter and then in front of another quote. -/
theorem comment_decided_by_own_text_quote :
    let accepted : Acceptance Kind := .ofList [.comment]
    let text := ['(', '*', '\'', '*', ')']
    let token : Token Kind :=
      ⟨.comment, .between [' '] (text ++ ['x']), .between (' ' :: text) ['x']⟩
    (Scanner.call State.initial accepted (.between [] (' ' :: text ++ ['x']))).token = some token ∧
      token.kind = .comment ∧
      (Scanner.call State.initial accepted (.between [] (' ' :: text ++ ['\'']))).token =
        some ⟨.comment, .between [' '] (text ++ ['\'']), .between (' ' :: text) ['\'']⟩ := by
  intro accepted text token
  have hcall : (Scanner.call State.initial accepted (.between [] (' ' :: text ++ ['x']))).token =
      some token := by decide
  obtain ⟨-, hother, -⟩ := comment_decided_by_own_text hcall rfl
  exact ⟨hcall, rfl, congrArg Call.token (hother ['\''])⟩

end Calls

end Delimited

end ContextLexer
