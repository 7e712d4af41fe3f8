/-
# What a reader does where the input runs out

A length that a snapshot tells of may be anything, and the bytes behind it may be missing. A
reader takes the bytes of a piece all together or not at all, so it never runs past the input,
and it says which piece was missing and stays in front of it. Only bytes with their number in
front come in two pieces. Whether bytes are a text is asked after they have been taken.
-/

import ContextLexer.Proofs.Snapshot.Steps

namespace ContextLexer.Snapshot

/-! ## Taking pieces -/

/-- The reader some bytes further on. -/
def Reader.skip (reader : Reader) (count : Nat) : Reader :=
  ⟨reader.offset + count, reader.rest.drop count⟩

theorem Reader.skip_zero (reader : Reader) : reader.skip 0 = reader := rfl

theorem Reader.skip_skip (reader : Reader) (count more : Nat) :
    (reader.skip count).skip more = reader.skip (count + more) := by
  simp [skip, Nat.add_assoc]

theorem Reader.remaining_skip (reader : Reader) (count : Nat) :
    (reader.skip count).remaining = reader.remaining - count := by
  simp [skip, remaining]

theorem outcome_getBytes (count : Nat) (reader : Reader) :
    outcome (getBytes count) reader =
      if reader.remaining < count then
        (.error (.truncated reader.offset count reader.remaining), reader)
      else (.ok (reader.rest.take count), reader.skip count) := by
  rw [outcome, getBytes_eq]
  by_cases hfits : count ≤ reader.remaining
  · simp only [hfits, if_true, Nat.not_lt.mpr hfits, if_false]
    rfl
  · simp only [hfits, if_false, Nat.not_le.mp hfits, if_true]

/-- The demand for the end takes nothing, and counts what is left. -/
theorem outcome_expectEnd (reader : Reader) :
    outcome expectEnd reader =
      (if reader.remaining = 0 then .ok ()
        else .error (.trailingBytes reader.offset reader.remaining), reader) := by
  by_cases hend : reader.remaining = 0
  · simp [outcome, expectEnd, Bind.bind, EStateM.bind, MonadState.get, getThe, MonadStateOf.get,
      EStateM.get, hend, Pure.pure, EStateM.pure]
  · simp [outcome, expectEnd, Bind.bind, EStateM.bind, MonadState.get, getThe, MonadStateOf.get,
      EStateM.get, hend, throw, throwThe, MonadExceptOf.throw, EStateM.throw]

/-- A step takes two pieces of known lengths, of which the first one may be empty, and makes a
value of the second one. What is missing is reported, with the reader in front of it. -/
def Draws {α : Type} (reader : Reader) (step : Read α) (front payload : Nat)
    (value : List UInt8 → Except Error α) : Prop :=
  outcome step reader =
    if reader.remaining < front then
      (.error (.truncated reader.offset front reader.remaining), reader)
    else if reader.remaining < front + payload then
      (.error (.truncated (reader.offset + front) payload (reader.remaining - front)),
        reader.skip front)
    else (value ((reader.rest.drop front).take payload), reader.skip (front + payload))

namespace Draws

variable {α β : Type} {reader : Reader} {step : Read α} {front payload : Nat}
  {value : List UInt8 → Except Error α}

theorem getBytes (count : Nat) (reader : Reader) : Draws reader (getBytes count) 0 count .ok := by
  rw [Draws, outcome_getBytes]
  simp [Reader.skip_zero]

/-- The first piece tells the length of the second one. -/
theorem getSized (reader : Reader) :
    Draws reader getSized 4 (ofLittleEndian (reader.rest.take 4)) .ok := by
  rw [Draws, Snapshot.getSized, outcome_bind, getWord32, outcome_map, outcome_getBytes]
  by_cases hfront : reader.remaining < 4
  · simp only [hfront, if_true]
    rfl
  · have hlength : (reader.rest.take 4).length = 4 :=
      List.length_take_of_le (Nat.le_of_not_lt hfront)
    have hless := ofLittleEndian_lt (reader.rest.take 4)
    rw [hlength] at hless
    have hcount : (UInt32.ofNat (ofLittleEndian (reader.rest.take 4))).toNat =
        ofLittleEndian (reader.rest.take 4) := UInt32.toNat_ofNat_of_lt' hless
    have hmissing (count : Nat) : reader.remaining - 4 < count ↔ reader.remaining < 4 + count := by
      omega
    simp only [hfront, if_false, Except.map, hcount, outcome_getBytes, Reader.remaining_skip,
      Reader.skip_skip, hmissing]
    rfl

/-- What is made of the value does not change what is taken. -/
theorem map (h : Draws reader step front payload value) (f : α → β) :
    Draws reader (do return f (← step)) front payload fun slice => (value slice).map f := by
  rw [Draws, outcome_map, h]
  split
  · rfl
  split <;> rfl

/-- Only slices of the right length count. -/
theorem congr {other : List UInt8 → Except Error α} (h : Draws reader step front payload value)
    (same : ∀ slice, slice.length = payload → value slice = other slice) :
    Draws reader step front payload other := by
  rw [Draws, h]
  split
  · rfl
  split
  · rfl
  next hfits =>
  have hlength : ((reader.rest.drop front).take payload).length = payload := by
    rw [List.length_take, List.length_drop, ← Reader.remaining]
    omega
  rw [same _ hlength]

/-- Bytes that have been taken may turn out not to be a text. -/
theorem asText (step : Reader → Read (List UInt8))
    (h : Draws reader (step reader) front payload .ok) :
    Draws reader (do
      let reader ← MonadState.get
      Snapshot.asText reader.offset (← step reader)) front payload (textOf reader.offset) := by
  have htext (bytes : List UInt8) (later : Reader) :
      outcome (Snapshot.asText reader.offset bytes) later = (textOf reader.offset bytes, later) := by
    rw [Snapshot.asText, textOf]
    cases Utf8.decode? bytes <;> rfl
  change outcome (step reader >>= Snapshot.asText reader.offset) reader = _
  rw [outcome_bind, h]
  by_cases hfront : reader.remaining < front
  · simp only [hfront, if_true]
  by_cases hpayload : reader.remaining < front + payload
  · simp only [hfront, if_false, hpayload, if_true]
  · simp only [hfront, if_false, hpayload, htext]

end Draws

/-! ## One step -/

namespace Get

/-- What a reader is asked for is drawn from it. -/
theorem draws (get : Get) (reader : Reader) :
    Draws reader get.step get.inFront (get.payload reader.rest) (get.value reader.offset) := by
  have hless {slice : List UInt8} {width : Nat} (hlength : slice.length = width) :
      ofLittleEndian slice < 256 ^ width := hlength ▸ ofLittleEndian_lt slice
  cases get with
  | byte =>
      refine (((Draws.getBytes 1 reader).map _).map _).congr fun slice hlength => ?_
      exact congrArg (Except.ok ∘ Value.number) (UInt8.toNat_ofNat_of_lt' (hless hlength))
  | flag =>
      refine ((((Draws.getBytes 1 reader).map _).map _).map _).congr fun slice hlength => ?_
      have hbyte := UInt8.toNat_ofNat_of_lt' (hless hlength)
      have hzero : (UInt8.ofNat (ofLittleEndian slice) != 0) = decide (ofLittleEndian slice ≠ 0) := by
        rw [Bool.eq_iff_iff, bne_iff_ne, decide_eq_true_eq, ne_eq, ← UInt8.toNat_inj, hbyte]
        rfl
      exact congrArg (Except.ok ∘ Value.flag) hzero
  | word16 =>
      refine (((Draws.getBytes 2 reader).map _).map _).congr fun slice hlength => ?_
      exact congrArg (Except.ok ∘ Value.number) (UInt16.toNat_ofNat_of_lt' (hless hlength))
  | word32 =>
      refine (((Draws.getBytes 4 reader).map _).map _).congr fun slice hlength => ?_
      exact congrArg (Except.ok ∘ Value.number) (UInt32.toNat_ofNat_of_lt' (hless hlength))
  | sized => exact (Draws.getSized reader).map Value.bytes
  | text => exact (Draws.asText (fun _ => getSized) (.getSized reader)).map Value.text
  | restText =>
      exact (Draws.asText (fun reader => getBytes reader.remaining)
        (.getBytes _ reader)).map Value.text
  | raw count => exact (Draws.getBytes count reader).map Value.bytes

/-- How a reader of some input answers when it is asked for something, and what it leaves. -/
structure Answered (get : Get) (input : List UInt8) (reader : Reader)
    (result : Except Error Value) (later : Reader) : Prop where
  /-- Where there are not even the bytes of the number in front, nothing is taken. -/
  front_missing : reader.remaining < get.inFront →
    result = .error (.truncated reader.offset get.inFront reader.remaining) ∧ later = reader
  /-- Where the bytes behind it are missing, it alone is taken. What has no number in front is
  missing as a whole. -/
  payload_missing : get.inFront ≤ reader.remaining →
    reader.remaining < get.inFront + get.payload reader.rest →
    result = .error (.truncated (reader.offset + get.inFront) (get.payload reader.rest)
      (reader.remaining - get.inFront)) ∧ later.offset = reader.offset + get.inFront
  /-- Otherwise all bytes are taken, whether or not they have a value. -/
  complete : get.inFront + get.payload reader.rest ≤ reader.remaining →
    later.offset = reader.offset + (get.inFront + get.payload reader.rest) ∧
      result = get.value reader.offset
        (input.extract (reader.offset + get.inFront) later.offset)
  /-- A truncation tells where the reader stands, and that less is left there than needed. -/
  truncated : ∀ offset needed left, result = .error (.truncated offset needed left) →
    offset = later.offset ∧ left = later.remaining ∧ left < needed
  /-- Bytes are returned as they stand in the input. -/
  bytes_eq : ∀ bytes, result = .ok (.bytes bytes) →
    bytes = input.extract (reader.offset + get.inFront) later.offset
  /-- The bytes of a text that is returned stand in the input. -/
  text_eq : ∀ text, result = .ok (.text text) →
    Utf8.encode text = input.extract (reader.offset + get.inFront) later.offset
  /-- Bytes that are no text have been taken, and the report tells where the step began. -/
  not_text : ∀ offset, result = .error (.invalidUtf8 offset) →
    offset = reader.offset ∧
      later.offset = reader.offset + (get.inFront + get.payload reader.rest)

variable {get : Get} {offset : Nat} {slice : List UInt8}

/-- Bytes of which a value is made are its bytes. -/
theorem slice_of_value {value : Value} (h : get.value offset slice = .ok value) :
    (∀ bytes, value = .bytes bytes → bytes = slice) ∧
    ∀ text, value = .text text → Utf8.encode text = slice := by
  cases get with
  | byte | word16 | word32 | flag => cases h; exact ⟨nofun, nofun⟩
  | sized | raw => cases h; exact ⟨fun _ => Value.bytes.inj ∘ Eq.symm, nofun⟩
  | text | restText =>
      rw [Get.value, textOf] at h
      cases htext : Utf8.decode? slice with
      | none => rw [htext] at h; cases h
      | some found =>
          rw [htext] at h
          cases h
          refine ⟨nofun, ?_⟩
          rintro _ ⟨⟩
          exact (Utf8.decode?_eq_some_iff.mp htext).symm

/-- The only complaint about bytes that have been taken is that they are no text. -/
theorem error_of_value {error : Error} (h : get.value offset slice = .error error) :
    error = .invalidUtf8 offset := by
  cases get with
  | byte | word16 | word32 | flag | sized | raw => cases h
  | text | restText =>
      rw [Get.value, textOf] at h
      cases htext : Utf8.decode? slice with
      | none => rw [htext] at h; cases h; rfl
      | some found => rw [htext] at h; cases h

theorem answered (get : Get) {input : List UInt8} {reader : Reader}
    (inside : reader.rest = input.drop reader.offset) :
    get.Answered input reader (outcome get.step reader).1 (outcome get.step reader).2 := by
  have hdraws := get.draws reader
  rw [Draws] at hdraws
  by_cases hfront : reader.remaining < get.inFront
  · rw [if_pos hfront] at hdraws
    rw [hdraws]
    exact {
      front_missing := fun _ => ⟨rfl, rfl⟩
      payload_missing := fun h => absurd hfront (Nat.not_lt.mpr h)
      complete := fun h => absurd hfront (by omega)
      truncated := by
        rintro _ _ _ ⟨⟩
        exact ⟨rfl, rfl, hfront⟩
      bytes_eq := nofun
      text_eq := nofun
      not_text := nofun }
  by_cases hpayload : reader.remaining < get.inFront + get.payload reader.rest
  · rw [if_neg hfront, if_pos hpayload] at hdraws
    rw [hdraws]
    exact {
      front_missing := fun h => absurd h hfront
      payload_missing := fun _ _ => ⟨rfl, rfl⟩
      complete := fun h => absurd hpayload (Nat.not_lt.mpr h)
      truncated := by
        rintro _ _ _ ⟨⟩
        exact ⟨rfl, (reader.remaining_skip _).symm, by omega⟩
      bytes_eq := nofun
      text_eq := nofun
      not_text := nofun }
  · rw [if_neg hfront, if_neg hpayload] at hdraws
    have hslice : (reader.rest.drop get.inFront).take (get.payload reader.rest) =
        input.extract (reader.offset + get.inFront)
          (reader.skip (get.inFront + get.payload reader.rest)).offset := by
      rw [inside, List.drop_drop, List.extract, Reader.skip]
      congr 1
      simp only
      omega
    rw [hdraws, hslice]
    exact {
      front_missing := fun h => absurd h hfront
      payload_missing := fun _ h => absurd h hpayload
      complete := fun _ => ⟨rfl, rfl⟩
      truncated := fun _ _ _ h => nomatch error_of_value h
      bytes_eq := fun bytes h => (slice_of_value h).1 bytes rfl
      text_eq := fun text h => (slice_of_value h).2 text rfl
      not_text := by
        intro offset h
        cases error_of_value h
        exact ⟨rfl, rfl⟩ }

end Get

/-! ## All steps -/

namespace Reader

/-- A reader goes on to another one, further on in the same input. -/
def Reaches (reader later : Reader) : Prop :=
  ∃ count ≤ reader.remaining, later = reader.skip count

theorem Reaches.refl (reader : Reader) : reader.Reaches reader := ⟨0, Nat.zero_le _, rfl⟩

theorem Reaches.trans (reader middle later : Reader) (first : reader.Reaches middle)
    (second : middle.Reaches later) : reader.Reaches later := by
  obtain ⟨count, hcount, rfl⟩ := first
  obtain ⟨more, hmore, rfl⟩ := second
  rw [remaining_skip] at hmore
  exact ⟨count + more, by omega, skip_skip reader count more⟩

theorem reaches_step (get : Get) (reader : Reader) :
    reader.Reaches (outcome get.step reader).2 := by
  rw [get.draws reader]
  split
  · exact .refl reader
  split
  case isTrue hfront _ => exact ⟨_, Nat.le_of_not_lt hfront, rfl⟩
  case isFalse hpayload => exact ⟨_, Nat.le_of_not_lt hpayload, rfl⟩

theorem reaches_goOn (gets : List Get) (reader : Reader) :
    reader.Reaches (goOn (gets.map Get.step) reader) :=
  goOn_relates Reaches.refl Reaches.trans reaches_step gets reader

end Reader

/-- Whatever a reader has been asked for, the bytes that it has taken and those that are left
make up the input, and it never goes back. What it returns next are bytes of the input, or the
value of such bytes; and where the input runs out it tells which piece is missing, and stays in
front of it. -/
theorem reader_stays_inside (input : List UInt8) (earlier : List Get) :
    let reader := goOn (earlier.map Get.step) (.begin input)
    reader.offset + reader.remaining = input.length ∧
    (∀ later : List Get, reader.offset ≤ (goOn (later.map Get.step) reader).offset) ∧
    outcome expectEnd reader =
      (if reader.remaining = 0 then .ok ()
        else .error (.trailingBytes reader.offset reader.remaining), reader) ∧
    ∀ get : Get,
      get.Answered input reader (outcome get.step reader).1 (outcome get.step reader).2 := by
  intro reader
  obtain ⟨count, hcount, hreader⟩ := Reader.reaches_goOn earlier (.begin input)
  have hreader : reader = ⟨count, input.drop count⟩ :=
    hreader.trans (by simp [Reader.begin, Reader.skip])
  have hcount : count ≤ input.length := hcount
  refine ⟨?_, ?_, outcome_expectEnd reader, ?_⟩
  · rw [hreader, Reader.remaining, List.length_drop]
    exact Nat.add_sub_of_le hcount
  · intro later
    obtain ⟨more, -, hlater⟩ := Reader.reaches_goOn later reader
    rw [hlater]
    exact Nat.le_add_right _ _
  · intro get
    exact get.answered (by rw [hreader])

end ContextLexer.Snapshot
