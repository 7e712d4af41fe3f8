/-
# Going on in a text

Every move leads from a place to one further on in the same text. How far is told by the
text that lies between the two. Offsets grow by the bytes of that text, so the order of
places is that of their offsets, and an offset finds its place again.
-/

import ContextLexer.Proofs.Passage

namespace ContextLexer

/-! ## Places -/

namespace Place

/-- A place comes before another one, with a text between them. -/
def Leads (p : Place) (text : List Char) (q : Place) : Prop :=
  ∃ before after, p = between before (text ++ after) ∧ q = between (before ++ text) after

/-- A place is at or before another one of the same text. -/
def Onward (p q : Place) : Prop := ∃ text, p.Leads text q

theorem exists_between (p : Place) : ∃ before, p = between before p.ahead :=
  ⟨p.passed.reverse, by simp [between]⟩

@[simp] theorem text_between (before after : List Char) :
    (between before after).text = before ++ after := by
  simp [between, text]

@[simp] theorem offset_between (before after : List Char) :
    (between before after).offset = Utf8.size before := by
  simp [between, offset]

namespace Leads

variable {p q r : Place} {text more : List Char}

theorem nothing (p : Place) : p.Leads [] p := by
  obtain ⟨before, hp⟩ := p.exists_between
  exact ⟨before, p.ahead, by simpa using hp, by simpa using hp⟩

theorem trans (first : p.Leads text q) (second : q.Leads more r) :
    p.Leads (text ++ more) r := by
  obtain ⟨before, after, rfl, rfl⟩ := first
  obtain ⟨further, rest, hq, rfl⟩ := second
  obtain ⟨hbefore, hafter⟩ : before ++ text = further ∧ after = more ++ rest := by
    simpa [between, ← List.reverse_append] using hq
  subst hbefore hafter
  exact ⟨before, rest, by simp, by simp⟩

theorem next {x : Char} {ahead : List Char} (h : p.ahead = x :: ahead) :
    p.Leads [x] p.next := by
  obtain ⟨before, hp⟩ := p.exists_between
  rw [h] at hp
  exact ⟨before, ahead, by simpa using hp, by rw [hp, next_between_cons]⟩

/-- The text of the first place is that of the second one. -/
theorem text_eq (h : p.Leads text q) : q.text = p.text := by
  obtain ⟨before, after, rfl, rfl⟩ := h
  simp

theorem offset_eq (h : p.Leads text q) : q.offset = p.offset + Utf8.size text := by
  obtain ⟨before, after, rfl, rfl⟩ := h
  simp

theorem since_eq (h : p.Leads text q) : p.since q = text := by
  obtain ⟨before, after, rfl, rfl⟩ := h
  exact since_between before text after after

theorem ahead_eq (h : p.Leads text q) : p.ahead = text ++ q.ahead := by
  obtain ⟨before, after, rfl, rfl⟩ := h
  simp

theorem skip_eq (h : p.Leads text q) : p.skip text.length = q := by
  obtain ⟨before, after, rfl, rfl⟩ := h
  exact skip_between before text after

/-- What is not at the end of the text behind a move was not there in front of it. -/
theorem atEnd_eq_false (h : p.Leads text q) (hend : q.atEnd = false) : p.atEnd = false := by
  refine Bool.eq_false_iff.mpr fun hnone => ?_
  have hahead := h.ahead_eq
  rw [List.isEmpty_iff.mp hnone] at hahead
  have hlater : q.ahead = [] := (List.append_eq_nil_iff.mp hahead.symm).2
  simp [atEnd, hlater] at hend

end Leads

/-- What is skipped is the run of characters that satisfy the test. -/
theorem leads_skipWhile (test : Char → Bool) (p : Place) :
    p.Leads (p.ahead.takeWhile test) (p.skipWhile test) := by
  obtain ⟨before, hp⟩ := p.exists_between
  obtain ⟨run, rest, hahead, passes, stops⟩ := exists_run test p.ahead
  have htake : p.ahead.takeWhile test = run := by
    rw [hahead, takeWhile_run passes stops]
  rw [hahead] at hp
  exact ⟨before, rest, htake ▸ hp, by rw [htake, hp, skipWhile_between passes stops]⟩

/-- Skipping may begin behind characters that are skipped. -/
theorem Leads.skipWhile_eq {test : Char → Bool} {p q : Place} {text : List Char}
    (h : p.Leads text q) (passes : ∀ x ∈ text, test x = true) :
    p.skipWhile test = q.skipWhile test := by
  obtain ⟨before, after, rfl, rfl⟩ := h
  obtain ⟨run, rest, rfl, hrun, stops⟩ := exists_run test after
  have hall : ∀ x ∈ text ++ run, test x = true := fun x hx =>
    (List.mem_append.mp hx).elim (passes x) (hrun x)
  have hskip := @skipWhile_between test before _ rest hall stops
  rw [skipWhile_between hrun stops, ← List.append_assoc, hskip, List.append_assoc]

namespace Onward

variable {p q r : Place}

theorem refl (p : Place) : p.Onward p := ⟨[], .nothing p⟩

theorem trans (first : p.Onward q) (second : q.Onward r) : p.Onward r := by
  obtain ⟨text, htext⟩ := first
  obtain ⟨more, hmore⟩ := second
  exact ⟨text ++ more, htext.trans hmore⟩

theorem next (p : Place) : p.Onward p.next := by
  cases hahead : p.ahead with
  | nil =>
      rw [next_of_atEnd (by simp [atEnd, hahead])]
      exact refl p
  | cons x ahead => exact ⟨[x], .next hahead⟩

theorem skipWhile (test : Char → Bool) (p : Place) : p.Onward (p.skipWhile test) :=
  ⟨_, p.leads_skipWhile test⟩

theorem text_eq (h : p.Onward q) : q.text = p.text := by
  obtain ⟨text, htext⟩ := h
  exact htext.text_eq

theorem offset_le (h : p.Onward q) : p.offset ≤ q.offset := by
  obtain ⟨text, htext⟩ := h
  rw [htext.offset_eq]
  omega

theorem index_le (h : p.Onward q) : p.index ≤ q.index := by
  obtain ⟨text, before, after, rfl, rfl⟩ := h
  simp [index_between]

theorem remaining_le (h : p.Onward q) : q.remaining ≤ p.remaining := by
  obtain ⟨text, htext⟩ := h
  rw [remaining, remaining, htext.ahead_eq, List.length_append]
  exact Nat.le_add_left _ _

theorem eq_of_index_le (h : p.Onward q) (hle : q.index ≤ p.index) : p = q := by
  obtain ⟨text, before, after, rfl, rfl⟩ := h
  rw [index_between, index_between, List.length_append] at hle
  have hnil : text = [] := List.eq_nil_of_length_eq_zero (by omega)
  simp [hnil]

end Onward

/-! ## Offsets -/

theorem text_of_atBytes? {passed ahead : List Char} {n : Nat} {p : Place}
    (h : atBytes? passed n ahead = some p) : p.text = passed.reverse ++ ahead := by
  fun_induction atBytes? passed n ahead with
  | case1 passed ahead => exact Option.some.inj h ▸ rfl
  | case2 => cases h
  | case3 passed n x ahead _ _ ih => simpa using ih h
  | case4 => cases h

/-- A place that is found at an offset of a text belongs to the text. -/
theorem text_of_atOffset? {text : List Char} {offset : Nat} {p : Place}
    (h : atOffset? text offset = some p) : p.text = text := text_of_atBytes? h

theorem offset_of_atBytes? {passed ahead : List Char} {n : Nat} {p : Place}
    (h : atBytes? passed n ahead = some p) : p.offset = Utf8.size passed + n := by
  fun_induction atBytes? passed n ahead with
  | case1 passed ahead => exact Option.some.inj h ▸ rfl
  | case2 => cases h
  | case3 passed n x ahead _ _ ih =>
      have hoffset := ih h
      rw [Utf8.size_cons] at hoffset
      omega
  | case4 => cases h

/-- A place that is found at an offset has that offset. -/
theorem offset_of_atOffset? {text : List Char} {offset : Nat} {p : Place}
    (h : atOffset? text offset = some p) : p.offset = offset := by
  rw [offset_of_atBytes? h, Utf8.size_nil, Nat.zero_add]

theorem offset_le_size (p : Place) : p.offset ≤ Utf8.size p.text := by
  obtain ⟨before, hp⟩ := p.exists_between
  rw [hp]
  simp

/-- A character takes at least one byte. -/
theorem remaining_le_size (p : Place) : p.remaining ≤ Utf8.size p.text := by
  have hpos (text : List Char) : text.length ≤ Utf8.size text := by
    induction text with
    | nil => exact Nat.le_refl _
    | cons x text ih =>
        have := x.utf8Size_pos
        rw [List.length_cons, Utf8.size_cons]
        omega
  rw [remaining, text, Utf8.size_append]
  exact Nat.le_add_left_of_le (hpos p.ahead)

theorem atBytes?_size (passed text after : List Char) :
    atBytes? passed (Utf8.size text) (text ++ after) = some ⟨text.reverse ++ passed, after⟩ := by
  induction text generalizing passed with
  | nil => rw [Utf8.size_nil, atBytes?]; simp
  | cons x text ih =>
      have hpos := x.utf8Size_pos
      obtain ⟨n, hn⟩ : ∃ n, Utf8.size (x :: text) = n + 1 :=
        Nat.exists_eq_succ_of_ne_zero (by rw [Utf8.size_cons]; omega)
      have hless : x.utf8Size ≤ n + 1 := by
        rw [← hn, Utf8.size_cons]
        omega
      have hrest : n + 1 - x.utf8Size = Utf8.size text := by
        rw [← hn, Utf8.size_cons]
        omega
      rw [hn, List.cons_append, atBytes?, if_pos hless, hrest, ih]
      · simp
      · exact fun hzero => absurd hzero (Nat.succ_ne_zero n)

/-- A place is found at its offset, so it lies between two characters. -/
theorem atOffset?_offset (p : Place) : atOffset? p.text p.offset = some p := by
  obtain ⟨before, hp⟩ := p.exists_between
  rw [hp, text_between, offset_between, atOffset?, atBytes?_size]
  simp [between]

end Place

/-! ## Consuming

Readers that only consume leave the boundaries of the token as they were.
-/

namespace Cursor

/-- A cursor consumes a text on its way to another one. -/
structure Consumes (c : Cursor) (text : List Char) (later : Cursor) : Prop where
  /-- The text lies between the two. -/
  leads : c.place.Leads text later.place
  /-- The token starts where it did. -/
  start_eq : later.start = c.start
  /-- The token ends where it did. -/
  mark_eq : later.mark = c.mark

/-- A cursor comes to another one by consuming some text. -/
def GoesOn (c later : Cursor) : Prop := ∃ text, c.Consumes text later

/-- A token whose end is not in front of its start begins at its start. -/
theorem tokenStart_of_start_onward {c : Cursor} (h : c.start.Onward c.stop) :
    c.tokenStart = c.start :=
  if_neg (Nat.not_lt.mpr h.index_le)

/-- A start that lies behind the end is pulled back to it. -/
theorem tokenStart_of_stop_onward {c : Cursor} (h : c.stop.Onward c.start) :
    c.tokenStart = c.stop := by
  rw [tokenStart]
  split
  · rfl
  · next hnot => exact (h.eq_of_index_le (Nat.le_of_not_lt hnot)).symm

/-- A character other than NUL that is seen is there. -/
theorem atEnd_of_sees {c : Cursor} {x : Char} (h : c.sees x = true) (hx : x ≠ '\x00') :
    c.atEnd = false := by
  have hlookahead : c.lookahead = x := by simpa [sees] using h
  refine Place.atEnd_of_lookahead ?_
  rwa [← lookahead, hlookahead]

namespace Consumes

variable {c later last : Cursor} {text more : List Char}

theorem trans (first : c.Consumes text later) (second : later.Consumes more last) :
    c.Consumes (text ++ more) last where
  leads := first.leads.trans second.leads
  start_eq := second.start_eq.trans first.start_eq
  mark_eq := second.mark_eq.trans first.mark_eq

/-- One character is consumed where one is left. -/
theorem consume (h : c.atEnd = false) : c.Consumes [c.lookahead] c.consume := by
  cases hahead : c.place.ahead with
  | nil => simp [Cursor.atEnd, Place.atEnd, hahead] at h
  | cons x ahead =>
      have hx : c.lookahead = x := by simp [Cursor.lookahead, Place.lookahead, hahead]
      exact ⟨hx ▸ .next hahead, rfl, rfl⟩

theorem of_sees {x : Char} (h : c.sees x = true) (hend : c.atEnd = false) :
    c.Consumes [x] c.consume := by
  have hx : c.lookahead = x := by simpa [sees] using h
  exact hx ▸ consume hend

theorem consumeWhile (test : Char → Bool) (c : Cursor) :
    c.Consumes (c.place.ahead.takeWhile test) (c.consumeWhile test) :=
  ⟨c.place.leads_skipWhile test, rfl, rfl⟩

/-- A word that is told to have come in full has been consumed, unless this was told at the
end of the text. There a NUL of the word is met again and again. -/
theorem consumeWord {word : List Char} (h : Cursor.consumeWord word c = (true, later))
    (hend : later.atEnd = false) : c.Consumes word later := by
  induction word generalizing c with
  | nil =>
      cases h
      exact ⟨.nothing _, rfl, rfl⟩
  | cons x word ih =>
      rw [Cursor.consumeWord] at h
      split at h
      case isTrue hx =>
        have hrest := ih h
        have hsome : c.atEnd = false := by
          refine Bool.eq_false_iff.mpr fun hnone => ?_
          have hstay : c.consume.place = c.place := Place.next_of_atEnd hnone
          have hnext : c.consume.place.atEnd = false := hrest.leads.atEnd_eq_false hend
          rw [hstay, ← Cursor.atEnd, hnone] at hnext
          cases hnext
        rw [← hx]
        exact (consume hsome).trans hrest
      case isFalse => cases h

/-- Nothing is consumed where the cursor stays. -/
theorem nil_iff : c.Consumes [] later ↔ later = c := by
  constructor
  · intro h
    have hplace : later.place = c.place := h.leads.skip_eq.symm
    obtain ⟨place, start, mark⟩ := later
    obtain rfl : start = c.start := h.start_eq
    obtain rfl : mark = c.mark := h.mark_eq
    obtain rfl : place = c.place := hplace
    rfl
  · rintro rfl
    exact ⟨.nothing _, rfl, rfl⟩

/-- The first character is consumed by one step, and the other ones from there on. -/
theorem cons_iff {x : Char} :
    c.Consumes (x :: text) later ↔
      c.atEnd = false ∧ c.lookahead = x ∧ c.consume.Consumes text later := by
  constructor
  · intro h
    obtain ⟨before, rest, hplace, hlater⟩ := h.leads
    have hnext : c.consume.place = .between (before ++ [x]) (text ++ rest) := by
      rw [Cursor.consume, hplace]
      exact Place.next_between_cons before (text ++ rest) x
    refine ⟨by rw [Cursor.atEnd, hplace]; rfl, by rw [Cursor.lookahead, hplace]; rfl,
      ⟨before ++ [x], rest, hnext, by simp [hlater]⟩, h.start_eq, h.mark_eq⟩
  · rintro ⟨hend, rfl, hrest⟩
    exact (consume hend).trans hrest

/-- A text that is ahead can be consumed. -/
theorem exists_of_ahead {rest : List Char} (h : c.place.ahead = text ++ rest) :
    ∃ later, c.Consumes text later := by
  obtain ⟨before, hplace⟩ := c.place.exists_between
  rw [h] at hplace
  exact ⟨⟨.between (before ++ text) rest, c.start, c.mark⟩, ⟨before, rest, hplace, rfl⟩, rfl, rfl⟩

/-- The first character that is ahead is consumed by one step. -/
theorem next_of_ahead {x : Char} (h : c.place.ahead = x :: text) :
    c.Consumes [x] c.consume ∧ c.consume.place.ahead = text := by
  have hone : c.Consumes [x] c.consume := ⟨.next h, rfl, rfl⟩
  exact ⟨hone, (List.cons_inj_right x).mp (hone.leads.ahead_eq.symm.trans h)⟩

/-- What is consumed between two cursors is one text. -/
theorem text_unique (first : c.Consumes text later) (second : c.Consumes more later) :
    text = more :=
  List.append_cancel_right (first.leads.ahead_eq.symm.trans second.leads.ahead_eq)

/-- A token that is consumed from the place of the call on lies where the cursor went. -/
theorem token_eq {κ : Type} {origin : Place} (h : (begin origin).Consumes text later)
    (kind : κ) : later.token kind = ⟨kind, origin, later.place⟩ := by
  have hstart : later.start = origin := h.start_eq
  have hmark : later.mark = none := h.mark_eq
  have hstop : later.stop = later.place := by rw [stop, hmark, Option.getD_none]
  have honward : later.start.Onward later.stop := by
    rw [hstart, hstop]
    exact ⟨text, h.leads⟩
  rw [token, tokenStart_of_start_onward honward, hstart, hstop]

end Consumes

namespace GoesOn

variable {c later last : Cursor}

theorem refl (c : Cursor) : c.GoesOn c := ⟨[], .nothing c.place, rfl, rfl⟩

theorem trans (first : c.GoesOn later) (second : later.GoesOn last) : c.GoesOn last := by
  obtain ⟨text, htext⟩ := first
  obtain ⟨more, hmore⟩ := second
  exact ⟨text ++ more, htext.trans hmore⟩

theorem consume (c : Cursor) : c.GoesOn c.consume := by
  obtain ⟨text, htext⟩ := Place.Onward.next c.place
  exact ⟨text, htext, rfl, rfl⟩

theorem consumeWhile (test : Char → Bool) (c : Cursor) : c.GoesOn (c.consumeWhile test) :=
  ⟨_, .consumeWhile test c⟩

theorem remaining_le (h : c.GoesOn later) : later.remaining ≤ c.remaining := by
  obtain ⟨text, htext⟩ := h
  exact Place.Onward.remaining_le ⟨text, htext.leads⟩

end GoesOn

end Cursor

end ContextLexer
