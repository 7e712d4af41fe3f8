/-
# What a writer keeps of a step that it refuses

Bytes are appended all together or not at all, and all steps but one append their bytes in one
piece. Only sized bytes come in two pieces, and there the number may find room where the bytes
behind it find none. So whatever a host asks of a writer, and however often it is refused, what
has been written stays, and the writer stays within its capacity.
-/

import ContextLexer.Proofs.Snapshot.Steps

namespace ContextLexer.Snapshot

/-! ## One step -/

theorem outcome_putRaw (bytes : List UInt8) (writer : Writer) :
    outcome (putRaw bytes) writer =
      if writer.HasRoom bytes.length then (.ok (), writer.append bytes)
      else (.error (.overflow (writer.written.length + bytes.length) writer.capacity), writer) := by
  rw [outcome, putRaw_eq]
  by_cases hroom : writer.HasRoom bytes.length
  · simp only [hroom, if_true]
  · simp only [hroom, if_false]

/-- Of two pieces the second one is refused apart from the first one. -/
theorem outcome_pieces (front payload : List UInt8) (writer : Writer) :
    outcome (putRaw front >>= fun _ => putRaw payload) writer =
      if writer.HasRoom front.length then
        if writer.HasRoom (front ++ payload).length then
          (.ok (), writer.append (front ++ payload))
        else
          (.error (.overflow ((writer.append front).written.length + payload.length)
            writer.capacity), writer.append front)
      else
        (.error (.overflow (writer.written.length + front.length) writer.capacity), writer) := by
  rw [outcome_bind, outcome_putRaw]
  by_cases hfront : writer.HasRoom front.length
  · simp only [hfront, if_true, outcome_putRaw, Writer.append_append, Writer.hasRoom_append,
      List.length_append]
    rfl
  · simp only [hfront, if_false]

namespace Put

variable {put : Put} {writer : Writer}

/-- A value that is too large for its width is refused whatever the room. -/
theorem outcome_of_complaint {error : Error} (h : put.complaint? = some error)
    (writer : Writer) : outcome put.step writer = (.error error, writer) := by
  cases put with
  | count what n =>
      simp only [complaint?, Option.ite_none_left_eq_some, Option.some.injEq] at h
      obtain ⟨hlarge, rfl⟩ := h
      have hcondition : 255 < n := by omega
      simp only [step, putCount, hcondition, if_true]
      rfl
  | sized what bytes =>
      simp only [complaint?, Option.ite_none_left_eq_some, Option.some.injEq] at h
      obtain ⟨hlarge, rfl⟩ := h
      have hcondition : 4294967295 < bytes.length := by omega
      simp only [step, putSized, hcondition, if_true]
      rfl
  | byte | flag | word16 | word32 | raw => cases h

/-- What has no number in front is appended in one piece. -/
theorem step_eq_payload (fits : put.complaint? = none) (single : put.inFront = []) :
    put.step = putRaw put.payload := by
  cases put with
  | count what n =>
      have hcondition : ¬ 255 < n := by
        simp [complaint?] at fits
        omega
      simp only [step, putCount, hcondition, if_false]
      rfl
  | sized what bytes => cases single
  | byte | flag | word16 | word32 | raw => rfl

/-- What has a number in front is appended in two pieces. -/
theorem step_eq_pieces (fits : put.complaint? = none) (double : put.inFront ≠ []) :
    put.step = putRaw put.inFront >>= fun _ => putRaw put.payload := by
  cases put with
  | sized what bytes =>
      have hless : bytes.length < 2 ^ 32 := by simpa [complaint?] using fits
      have hcondition : ¬ 4294967295 < bytes.length := by omega
      have hlength : (UInt32.ofNat bytes.length).toNat = bytes.length :=
        UInt32.toNat_ofNat_of_lt' hless
      simp only [step, putSized, hcondition, if_false, putWord32, hlength]
      rfl
  | byte | flag | word16 | word32 | count | raw => exact absurd rfl double

/-- A value that fits its width is appended as far as its pieces find room. -/
theorem outcome_step (fits : put.complaint? = none) (within : writer.HasRoom 0) :
    outcome put.step writer =
      if writer.HasRoom put.inFront.length then
        if writer.HasRoom put.bytes.length then (.ok (), writer.append put.bytes)
        else
          (.error (.overflow ((writer.append put.inFront).written.length + put.payload.length)
            writer.capacity), writer.append put.inFront)
      else
        (.error (.overflow (writer.written.length + put.inFront.length) writer.capacity),
          writer) := by
  by_cases single : put.inFront = []
  · rw [step_eq_payload fits single, outcome_putRaw, bytes, single]
    simp [within, Writer.append]
  · rw [step_eq_pieces fits single, outcome_pieces]
    rfl

/-- How a writer answers when it is asked for something, and what it holds then. -/
structure Answered (put : Put) (writer : Writer) (result : Except Error Unit) (later : Writer) :
    Prop where
  /-- The step succeeds if the value fits its width and all bytes fit the room that is left. -/
  ok_iff : result = .ok () ↔ put.complaint? = none ∧ writer.HasRoom put.bytes.length
  /-- Then all bytes are appended. -/
  appended : result = .ok () → later = writer.append put.bytes
  /-- A value that does not fit its width is complained about, whatever the room. -/
  complained : ∀ error, put.complaint? = some error → result = .error error ∧ later = writer
  /-- Where there is no room for the number in front, nothing is appended. -/
  front_refused : put.complaint? = none → ¬ writer.HasRoom put.inFront.length →
    result = .error (.overflow (later.written.length + put.inFront.length) writer.capacity) ∧
      later = writer
  /-- Where there is room for it, but not for the bytes behind it, it alone is appended. What
  has no number in front is refused as a whole. -/
  payload_refused : put.complaint? = none → writer.HasRoom put.inFront.length →
    ¬ writer.HasRoom put.bytes.length →
    result = .error (.overflow (later.written.length + put.payload.length) writer.capacity) ∧
      later = writer.append put.inFront

theorem answered (put : Put) (within : writer.HasRoom 0) :
    put.Answered writer (outcome put.step writer).1 (outcome put.step writer).2 := by
  cases hcomplaint : put.complaint? with
  | some error =>
      rw [outcome_of_complaint hcomplaint]
      constructor <;> simp [hcomplaint]
  | none =>
      rw [outcome_step hcomplaint within]
      by_cases hfront : writer.HasRoom put.inFront.length
      · by_cases hroom : writer.HasRoom put.bytes.length
        · constructor <;> simp [hcomplaint, hfront, hroom]
        · constructor <;> simp [hcomplaint, hfront, hroom]
      · have hroom : ¬ writer.HasRoom put.bytes.length := fun hroom =>
          hfront (hroom.le (by simp [bytes]))
        constructor <;> simp [hcomplaint, hfront, hroom]

end Put

/-! ## All steps -/

namespace Writer

/-- A writer within its capacity stays there, and keeps what it holds. -/
def Grows (writer later : Writer) : Prop :=
  writer.HasRoom 0 → ∃ more, later = writer.append more ∧ writer.HasRoom more.length

theorem Grows.refl (writer : Writer) : writer.Grows writer := fun within =>
  ⟨[], by simp [append], within⟩

theorem Grows.trans (writer middle later : Writer) (first : writer.Grows middle)
    (second : middle.Grows later) : writer.Grows later := by
  intro within
  obtain ⟨more, rfl, hmore⟩ := first within
  obtain ⟨further, rfl, hfurther⟩ := second (hasRoom_append.mpr hmore)
  refine ⟨more ++ further, append_append writer more further, ?_⟩
  rw [List.length_append]
  exact hasRoom_append.mp hfurther

theorem grows_step (put : Put) (writer : Writer) : writer.Grows (outcome put.step writer).2 := by
  intro within
  cases hcomplaint : put.complaint? with
  | some error =>
      rw [Put.outcome_of_complaint hcomplaint]
      exact Grows.refl writer within
  | none =>
      rw [Put.outcome_step hcomplaint within]
      split
      case isTrue hfront =>
        split
        case isTrue hroom => exact ⟨_, rfl, hroom⟩
        case isFalse => exact ⟨_, rfl, hfront⟩
      case isFalse => exact Grows.refl writer within

theorem grows_goOn (puts : List Put) (writer : Writer) :
    writer.Grows (goOn (puts.map Put.step) writer) :=
  goOn_relates Grows.refl Grows.trans grows_step puts writer

end Writer

/-- Whatever a host has asked a writer for, it is within its capacity, and what it holds then
stays in front of all that is appended later. Every further step succeeds exactly if its value
fits its width and its bytes fit the room that is left, and appends them; otherwise it appends
nothing, apart from the number in front of bytes that find no room behind it. -/
theorem refused_steps_keep_written (capacity : Nat) (earlier : List Put) :
    let writer := goOn (earlier.map Put.step) ⟨capacity, []⟩
    writer.capacity = capacity ∧ writer.written.length ≤ capacity ∧
    (∀ later : List Put, writer.written <+: (goOn (later.map Put.step) writer).written) ∧
    ∀ put : Put, put.Answered writer (outcome put.step writer).1 (outcome put.step writer).2 := by
  intro writer
  have hempty : (Writer.mk capacity []).HasRoom 0 := Nat.zero_le capacity
  obtain ⟨written, hwriter, hroom⟩ := Writer.grows_goOn earlier ⟨capacity, []⟩ hempty
  have hwriter : writer = ⟨capacity, written⟩ := hwriter
  have within : writer.HasRoom 0 := by
    rw [hwriter]
    simpa [Writer.HasRoom] using hroom
  refine ⟨by rw [hwriter], by rw [hwriter]; simpa [Writer.HasRoom] using hroom, ?_, ?_⟩
  · intro later
    obtain ⟨more, hmore, -⟩ := Writer.grows_goOn later writer within
    rw [hmore]
    exact List.prefix_append _ _
  · exact fun put => put.answered within

end ContextLexer.Snapshot
