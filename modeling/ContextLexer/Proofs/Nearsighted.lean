/-
# Nearsighted readers

A reader that has to decide how to go on looks at the next character, and at nothing behind
it. So what it tells, and how far it comes, depends only on the text that it consumes and on
one character more. Readers are made of looks, of steps over the character that has been
looked at, of other readers one after the other, and of automata whose turns are readers; all
of these are nearsighted if their parts are.
-/

import ContextLexer.Automaton
import ContextLexer.Proofs.Onward

namespace ContextLexer

/-! ## Two texts -/

namespace Cursor

/-- Two cursors have the same text in front of them, up to where the first one has a rest left
and the second one another rest. -/
def Alike (rest other : List Char) (c d : Cursor) : Prop :=
  ∃ text, c.place.ahead = text ++ rest ∧ d.place.ahead = text ++ other

namespace Alike

variable {rest other : List Char} {c d : Cursor}

/-- In front of the rests there is the same character to be seen and to be consumed. -/
theorem exists_cons (h : Alike rest other c d) (hleft : rest.length < c.remaining) :
    ∃ x text, c.place.ahead = x :: (text ++ rest) ∧ d.place.ahead = x :: (text ++ other) := by
  obtain ⟨text, hc, hd⟩ := h
  cases text with
  | nil =>
      rw [remaining, Place.remaining, hc] at hleft
      exact absurd hleft (Nat.lt_irrefl _)
  | cons x text => exact ⟨x, text, hc, hd⟩

theorem lookahead_eq (h : Alike rest other c d) (hleft : rest.length < c.remaining) :
    d.lookahead = c.lookahead := by
  obtain ⟨x, text, hc, hd⟩ := h.exists_cons hleft
  simp [lookahead, Place.lookahead, hc, hd]

theorem atEnd_eq (h : Alike rest other c d) (hleft : rest.length < c.remaining) :
    d.atEnd = c.atEnd := by
  obtain ⟨x, text, hc, hd⟩ := h.exists_cons hleft
  simp [atEnd, Place.atEnd, hc, hd]

theorem consume (h : Alike rest other c d) (hleft : rest.length < c.remaining) :
    Alike rest other c.consume d.consume := by
  obtain ⟨x, text, hc, hd⟩ := h.exists_cons hleft
  exact ⟨text, by simp [Cursor.consume, Place.next, hc], by simp [Cursor.consume, Place.next, hd]⟩

end Alike

end Cursor

open Cursor (Alike GoesOn)

/-! ## Readers -/

variable {ρ τ α β : Type}

/-- Two results tell the same and leave cursors that are alike, if the first one leaves more
than the rest. -/
def AgreeBefore (rest other : List Char) (first second : α × Cursor) : Prop :=
  rest.length < first.2.remaining →
    second.1 = first.1 ∧ Alike rest other first.2 second.2

/-- A reader that only consumes, and that does not look beyond the character in front of which
it stops: what comes behind that one may be any text. What a reader returns is divided into
what it tells and the cursor that it leaves. -/
structure Nearsighted (view : ρ → α × Cursor) (read : Cursor → ρ) : Prop where
  /-- The reader only consumes. -/
  goesOn : ∀ c : Cursor, c.GoesOn (view (read c)).2
  /-- As long as it stops in front of them, it does not tell two rests apart. -/
  blind : ∀ {rest other : List Char} {c d : Cursor}, Alike rest other c d →
    AgreeBefore rest other (view (read c)) (view (read d))

/-- What a reader tells that returns only its cursor, which is nothing. -/
def Cursor.silent (c : Cursor) : Unit × Cursor := ((), c)

namespace Nearsighted

variable {view : ρ → α × Cursor} {read yes no : Cursor → ρ} {move : Cursor → Cursor}

theorem left_of_left (h : Nearsighted view read) {rest : List Char} {c : Cursor}
    (hleft : rest.length < (view (read c)).2.remaining) : rest.length < c.remaining :=
  Nat.lt_of_lt_of_le hleft (h.goesOn c).remaining_le

/-- What a reader consumes, together with something more, decides what it tells and what it
consumes. -/
theorem decided (h : Nearsighted view read) {text more rest other : List Char} {c d : Cursor}
    (hconsumes : c.Consumes text (view (read c)).2)
    (hmore : (view (read c)).2.place.ahead = more ++ rest) (hsome : more ≠ [])
    (hd : d.place.ahead = text ++ (more ++ other)) :
    (view (read d)).1 = (view (read c)).1 ∧ d.Consumes text (view (read d)).2 ∧
      (view (read d)).2.place.ahead = more ++ other := by
  have halike : Alike rest other c d :=
    ⟨text ++ more, by rw [hconsumes.leads.ahead_eq, hmore, List.append_assoc],
      by rw [hd, List.append_assoc]⟩
  have hleft : rest.length < (view (read c)).2.remaining := by
    have hpos := List.length_pos_iff.mpr hsome
    rw [Cursor.remaining, Place.remaining, hmore, List.length_append]
    omega
  obtain ⟨htold, between, hfirst, hsecond⟩ := h.blind halike hleft
  obtain rfl : between = more := List.append_cancel_right (hfirst.symm.trans hmore)
  obtain ⟨consumed, hconsumed⟩ := h.goesOn d
  obtain rfl : consumed = text := by
    have hahead := hconsumed.leads.ahead_eq
    rw [hd, hsecond] at hahead
    exact List.append_cancel_right hahead.symm
  exact ⟨htold, hconsumed, hsecond⟩

/-- A reader may stay where it is and tell anything. -/
theorem stay {a : α} (h : ∀ c, view (read c) = (a, c)) : Nearsighted view read where
  goesOn c := by
    rw [h]
    exact .refl c
  blind := by
    intro rest other c d halike _
    rw [h, h]
    exact ⟨rfl, halike⟩

theorem told (a : α) : Nearsighted id fun c : Cursor => (a, c) := stay fun _ => rfl

theorem refl : Nearsighted Cursor.silent fun c => c := stay fun _ => rfl

/-- A reader may depend on the next character, and on whether there is one. -/
theorem look (read : Char → Bool → Cursor → ρ) (h : ∀ x ended, Nearsighted view (read x ended)) :
    Nearsighted view fun c => read c.lookahead c.atEnd c where
  goesOn c := (h _ _).goesOn c
  blind := by
    intro rest other c d halike hleft
    have hc := (h _ _).left_of_left hleft
    rw [halike.lookahead_eq hc, halike.atEnd_eq hc]
    exact (h _ _).blind halike hleft

/-- A reader may go on where another one stops, and as that one tells. -/
theorem bind {first : Cursor → β × Cursor} (hfirst : Nearsighted id first)
    (h : ∀ b, ∃ next, Nearsighted view next ∧
      ∀ c after, first c = (b, after) → read c = next after) :
    Nearsighted view read where
  goesOn c := by
    obtain ⟨next, hnext, heq⟩ := h (first c).1
    rw [heq c _ rfl]
    exact (hfirst.goesOn c).trans (hnext.goesOn _)
  blind := by
    intro rest other c d halike hleft
    obtain ⟨next, hnext, heq⟩ := h (first c).1
    rw [heq c _ rfl] at hleft ⊢
    obtain ⟨htold, hafter⟩ := hfirst.blind halike (hnext.left_of_left hleft)
    have hd : first d = ((first c).1, (first d).2) := Prod.ext htold rfl
    rw [heq d _ hd]
    exact hnext.blind hafter hleft

/-- A reader may begin where a move leads. -/
theorem after (h : Nearsighted view read) (hmove : Nearsighted Cursor.silent move) :
    Nearsighted view fun c => read (move c) where
  goesOn c := (hmove.goesOn c).trans (h.goesOn _)
  blind := by
    intro rest other c d halike hleft
    obtain ⟨-, hafter⟩ := hmove.blind halike (h.left_of_left hleft)
    exact h.blind hafter hleft

/-- A reader may tell something else at the place where another one stops. -/
theorem map {within : τ → β × Cursor} {first : Cursor → τ} (hfirst : Nearsighted within first)
    (tell : β → α)
    (h : ∀ c b after, within (first c) = (b, after) → view (read c) = (tell b, after)) :
    Nearsighted view read where
  goesOn c := by
    rw [h c _ _ rfl]
    exact hfirst.goesOn c
  blind := by
    intro rest other c d halike hleft
    rw [h c _ _ rfl] at hleft ⊢
    rw [h d _ _ rfl]
    obtain ⟨htold, hafter⟩ := hfirst.blind halike hleft
    exact ⟨congrArg tell htold, hafter⟩

/-! ## Looks -/

theorem ite (test : Char → Bool → Prop) [∀ x ended, Decidable (test x ended)]
    (hyes : Nearsighted view yes) (hno : Nearsighted view no) :
    Nearsighted view fun c => if test c.lookahead c.atEnd then yes c else no c := by
  refine look (fun x ended c => if test x ended then yes c else no c) fun x ended => ?_
  by_cases htest : test x ended
  · simpa only [if_pos htest] using hyes
  · simpa only [if_neg htest] using hno

theorem ite_sees (x : Char) (hyes : Nearsighted view yes) (hno : Nearsighted view no) :
    Nearsighted view fun c => if c.sees x then yes c else no c :=
  ite (fun y _ => decide (y = x) = true) hyes hno

theorem ite_atEnd (hyes : Nearsighted view yes) (hno : Nearsighted view no) :
    Nearsighted view fun c => if c.atEnd then yes c else no c :=
  ite (fun _ ended => ended = true) hyes hno

/-- A reader may tell something about the next character without consuming it. -/
theorem tell (told : Char → α) : Nearsighted id fun c : Cursor => (told c.lookahead, c) :=
  look (fun x _ c => (told x, c)) fun _ _ => .stay fun _ => rfl

/-! ## Moves -/

theorem consume : Nearsighted Cursor.silent Cursor.consume where
  goesOn := .consume
  blind := by
    intro rest other c d halike hleft
    exact ⟨rfl, halike.consume (Nat.lt_of_lt_of_le hleft (GoesOn.consume c).remaining_le)⟩

/-- A run of characters is not looked through beyond the character that ends it. -/
theorem takeWhile (test : Char → Bool) :
    Nearsighted id fun c : Cursor => (c.place.ahead.takeWhile test, c.consumeWhile test) where
  goesOn := .consumeWhile test
  blind := by
    rintro rest other c d ⟨text, hc, hd⟩ hleft
    change rest.length < (c.place.skipWhile test).ahead.length at hleft
    obtain ⟨run, more, rfl, passes, stops⟩ := exists_run test text
    rw [List.append_assoc] at hc hd
    rw [Place.ahead_skipWhile, hc] at hleft
    cases more with
    | nil =>
        rw [List.nil_append, List.dropWhile_append_of_pos passes] at hleft
        exact absurd hleft (Nat.not_lt.mpr (List.dropWhile_suffix test).length_le)
    | cons x more =>
        have hstops (behind : List Char) : ∀ y ∈ (x :: more ++ behind).head?, test y = false :=
          fun y hy => stops y hy
        refine ⟨?_, x :: more, ?_, ?_⟩
        · simp only [id, hc, hd, takeWhile_run passes (hstops _)]
        · exact (c.place.ahead_skipWhile test).trans (by rw [hc, dropWhile_run passes (hstops _)])
        · exact (d.place.ahead_skipWhile test).trans (by rw [hd, dropWhile_run passes (hstops _)])

theorem consumeWhile (test : Char → Bool) :
    Nearsighted Cursor.silent (Cursor.consumeWhile test) :=
  (takeWhile test).map (fun _ => ()) fun _ _ _ h => congrArg (((), ·)) (congrArg Prod.snd h)

/-- A reader that moves may tell the same of every place. -/
theorem telling (a : α) (h : Nearsighted Cursor.silent move) :
    Nearsighted id fun c => (a, move c) :=
  h.map (fun _ => a) fun _ _ _ hmove => congrArg (a, ·) (congrArg Prod.snd hmove)

theorem consumeWord (word : List Char) : Nearsighted id (Cursor.consumeWord word) := by
  induction word with
  | nil => exact told true
  | cons x word ih =>
      refine .ite (fun y _ => y = x) ?_ ?_
      · exact ih.after consume
      · exact told false

theorem consumeCount (test : Char → Bool) (n : Nat) :
    Nearsighted id (Cursor.consumeCount test n) := by
  induction n with
  | zero => exact told true
  | succ n ih =>
      refine .ite (fun x _ => test x = true) ?_ ?_
      · exact ih.after consume
      · exact told false

end Nearsighted

/-! ## Automata -/

/-- What a turn tells, which is nothing if it goes on, and the cursor that it leaves. -/
def Turn.outlook (view : ρ → α × Cursor) : Turn Cursor ρ → Option α × Cursor
  | .again later => (none, later)
  | .done result => (some (view result).1, (view result).2)

theorem Nearsighted.again {view : ρ → α × Cursor} {move : Cursor → Cursor}
    (h : Nearsighted Cursor.silent move) :
    Nearsighted (Turn.outlook view) fun c => .again (move c) :=
  h.map (fun _ => none) fun _ _ _ hmove => congrArg (none, ·) (congrArg Prod.snd hmove)

theorem Nearsighted.done {view : ρ → α × Cursor} {read : Cursor → ρ} (h : Nearsighted view read) :
    Nearsighted (Turn.outlook view) fun c => .done (read c) :=
  h.map some fun _ _ _ hread => by rw [Turn.outlook, hread]

/-- An automaton with nearsighted turns is nearsighted. -/
theorem Nearsighted.run {view : ρ → α × Cursor} {turn : Cursor → Turn Cursor ρ}
    {size : Cursor → Nat} (h : Nearsighted (Turn.outlook view) turn)
    (shrinks : Turn.Shrinks turn size) : Nearsighted view (Turn.run turn size shrinks) := by
  -- A turn stops in front of the rests if the run does, which needs that the run goes on.
  have main (c : Cursor) := @Turn.run_induction _ _ turn size shrinks
    (fun c result => c.GoesOn (view result).2 ∧ ∀ {rest other d}, Alike rest other c d →
      AgreeBefore rest other (view result) (view (Turn.run turn size shrinks d))) ?_ ?_ c
  · exact ⟨fun c => (main c).1, fun {_ _ c _} => (main c).2⟩
  · intro c result hdone
    have hgoes := h.goesOn c
    rw [hdone] at hgoes
    refine ⟨hgoes, fun {rest other d} halike hleft => ?_⟩
    obtain ⟨htold, hafter⟩ := h.blind halike (by rwa [hdone])
    rw [hdone] at htold hafter
    cases hother : turn d with
    | again later =>
        rw [hother] at htold
        cases htold
    | done found =>
        rw [hother] at htold hafter
        rw [Turn.run_of_done hother]
        exact ⟨Option.some.inj htold, hafter⟩
  · intro c later result hagain hrest
    obtain ⟨hgoes, hblind⟩ := hrest
    have hturn := h.goesOn c
    rw [hagain] at hturn
    refine ⟨hturn.trans hgoes, fun {rest other d} halike hleft => ?_⟩
    have hlater : rest.length < later.remaining := Nat.lt_of_lt_of_le hleft hgoes.remaining_le
    obtain ⟨htold, hafter⟩ := h.blind halike (by rwa [hagain])
    rw [hagain] at htold hafter
    cases hother : turn d with
    | again next =>
        rw [hother] at hafter
        rw [Turn.run_of_again hother]
        exact hblind hafter hleft
    | done found =>
        rw [hother] at htold
        cases htold

end ContextLexer
