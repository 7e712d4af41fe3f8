/-
# What a layout scanner makes of any bytes

Loading fills in the owed dedents from the first byte and the widths from the words behind
it, and only then is a byte that is left over reported. So every snapshot but the empty one
fills in everything but the queue, and it does so in the same way whether it is refused or
not.
-/

import ContextLexer.Proofs.Snapshot.RoundTrip

namespace ContextLexer.Offside

open Snapshot

/-- The words that bytes hold; a single byte at the end is no word. -/
def words : List UInt8 → List UInt16
  | low :: high :: bytes => UInt16.ofNat (ofLittleEndian [low, high]) :: words bytes
  | _ => []

/-- Bytes are the words that they hold, and one byte more if they are odd in number. -/
theorem exists_words (bytes : List UInt8) :
    ∃ left, bytes = State.widthBytes (words bytes) ++ left ∧ left.length = bytes.length % 2 := by
  induction bytes using words.induct with
  | case1 low high bytes ih =>
      obtain ⟨left, hbytes, hleft⟩ := ih
      refine ⟨left, ?_, by simp only [List.length_cons]; omega⟩
      have hless : ofLittleEndian [low, high] < 2 ^ 16 := by
        simpa using ofLittleEndian_lt [low, high]
      have hword : littleEndian 2 (UInt16.ofNat (ofLittleEndian [low, high])).toNat =
          [low, high] := by
        rw [UInt16.toNat_ofNat_of_lt' hless]
        exact littleEndian_ofLittleEndian [low, high]
      rw [words, State.widthBytes, List.flatMap_cons, hword, ← State.widthBytes]
      simpa using hbytes
  | case2 bytes hshort =>
      cases bytes with
      | nil => exact ⟨[], by simp [words, State.widthBytes], rfl⟩
      | cons byte bytes =>
          cases bytes with
          | nil => exact ⟨[byte], by simp [words, State.widthBytes], rfl⟩
          | cons high bytes => exact absurd rfl (hshort byte high bytes)

/-- The fields of any bytes but none are filled in up to the end, where a byte may be left. -/
theorem fields_eq (widths : List UInt16) {left : List UInt8} (hleft : left.length ≤ 1)
    (byte : UInt8) (state : State) :
    State.fields ⟨.begin (byte :: (State.widthBytes widths ++ left)), state⟩ =
      field expectEnd ⟨⟨0 + 1 + (State.widthBytes widths).length, left⟩,
        State.setWidths widths { state with owed := byte.toNat }⟩ := by
  have hbyte : getByte (.begin (byte :: (State.widthBytes widths ++ left))) =
      .ok byte ⟨0 + 1, State.widthBytes widths ++ left⟩ := Reads.getByte byte 0 _
  have hwidths := State.reads_widthBytes widths (0 + 1) left
  have hcount : (State.widthBytes widths ++ left).length / 2 = widths.length := by
    rw [List.length_append, State.length_widthBytes]
    omega
  simp only [State.fields, Bind.bind, EStateM.bind, field, hbyte, fill, modify, modifyGet,
    MonadStateOf.modifyGet, EStateM.modifyGet, MonadState.get, getThe, MonadStateOf.get,
    EStateM.get, Reader.remaining, hcount, hwidths]

namespace State

theorem widths_setWidths (widths : List UInt16) (s : State) :
    (State.setWidths widths s).widths = if widths = [] then [0] else widths := by
  cases widths <;> simp [State.widths, State.setWidths]

/-- Nothing is left, or one byte is left and reported. -/
theorem field_expectEnd_eq {left : List UInt8} (hleft : left.length ≤ 1) (offset : Nat)
    (state : State) :
    field expectEnd ⟨⟨offset, left⟩, state⟩ =
      if left.length = 0 then .ok () ⟨⟨offset, left⟩, state⟩
      else .error (.trailingBytes offset 1) ⟨⟨offset, left⟩, state⟩ := by
  cases left with
  | nil => rfl
  | cons byte left =>
      obtain rfl : left = [] := by simpa using hleft
      rfl

/-- Loading bytes, of which there are some, replaces all but the queue. -/
theorem load_cons (s : State) (byte : UInt8) (bytes : List UInt8) :
    s.load (byte :: bytes) =
      ⟨setWidths (words bytes) { s with owed := byte.toNat },
        if bytes.length % 2 = 0 then none else some (.trailingBytes bytes.length 1)⟩ := by
  obtain ⟨left, hbytes, hleft⟩ := exists_words bytes
  have hone : left.length ≤ 1 := by omega
  have hfields := fields_eq (words bytes) hone byte { initial with queue := s.queue }
  rw [← hbytes, field_expectEnd_eq hone, hleft] at hfields
  rw [load, if_neg (List.cons_ne_nil byte bytes), Load.run, hfields]
  by_cases heven : bytes.length % 2 = 0
  · rw [if_pos heven, if_pos heven]
    rfl
  · have hoffset : 0 + 1 + (widthBytes (words bytes)).length = bytes.length := by
      have hlength := congrArg List.length hbytes
      rw [List.length_append] at hlength
      omega
    rw [if_neg heven, if_neg heven, hoffset]
    rfl

/-- An odd number of bytes is written back as it was loaded, with a width if there was none. -/
theorem format_load (s : State) {bytes : List UInt8} (odd : bytes.length % 2 = 1) :
    (s.load bytes).state.format = if bytes.length = 1 then bytes ++ [0, 0] else bytes := by
  cases bytes with
  | nil => cases odd
  | cons byte bytes =>
      obtain ⟨left, hbytes, hleft⟩ := exists_words bytes
      rw [List.length_cons] at odd ⊢
      obtain rfl : left = [] := List.length_eq_zero_iff.mp (by omega)
      rw [List.append_nil] at hbytes
      rw [load_cons, format, widths_setWidths]
      by_cases h : words bytes = []
      · obtain rfl : bytes = [] := by rw [hbytes, h]; rfl
        simp [words, setWidths, widthBytes, littleEndian]
      · have hsome : ¬ bytes.length + 1 = 1 := fun hone => h (by
          rw [List.length_eq_zero_iff.mp (Nat.succ.inj hone)]
          rfl)
        rw [if_neg h, ← hbytes, if_neg hsome]
        simp [setWidths]

/-- The queue is not part of snapshots, and only the empty one clears it. -/
theorem queue_load (s : State) {bytes : List UInt8} (h : bytes ≠ []) :
    (s.load bytes).state.queue = s.queue := by
  obtain ⟨byte, bytes, rfl⟩ := List.exists_cons_of_ne_nil h
  rw [load_cons]
  rfl

end State

end ContextLexer.Offside
