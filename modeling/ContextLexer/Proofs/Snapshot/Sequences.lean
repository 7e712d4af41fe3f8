/-
# Sequences of fields

A snapshot of any shape is a sequence of fields. Where all of them fit their widths and find
room together, they are written one after the other, and whoever asks for them in the same
order gets their values back, whatever stands behind them. What stands behind is noticed once
the end is demanded.
-/

import ContextLexer.Proofs.Snapshot.Refusals
import ContextLexer.Proofs.Snapshot.Truncations

namespace ContextLexer.Snapshot

/-! ## Writing -/

/-- A step writes its bytes if its value fits its width. -/
theorem Put.writes (put : Put) : Writes put.step put.bytes (put.complaint? = none) where
  ok writer fits hroom := by
    have hanswered := put.answered (hroom.le (Nat.zero_le _))
    have hok := hanswered.ok_iff.mpr ⟨fits, hroom⟩
    exact outcome_eq_ok.mp (Prod.ext hok (hanswered.appended hok))
  error writer within h := by
    have hok_iff := (put.answered within).ok_iff
    rcases hstep : outcome put.step writer with ⟨result, later⟩
    rw [hstep] at hok_iff
    cases result with
    | ok => exact absurd (hok_iff.mp rfl) h
    | error error => exact ⟨error, later, outcome_eq_error.mp hstep⟩

/-! ## Fields -/

/-- A field whose value fits its width. -/
inductive Field
  | byte (n : UInt8)
  | word16 (n : UInt16)
  | word32 (n : UInt32)
  | flag (on : Bool)
  | count (what : String) (n : Nat) (small : n ≤ 255)
  | sized (what : String) (bytes : List UInt8) (short : bytes.length < 2 ^ 32)
  | text (what : String) (content : List Char) (short : Utf8.size content < 2 ^ 32)
  | raw (bytes : List UInt8)

namespace Field

/-- How the field is written. -/
def put : Field → Put
  | byte n => .byte n
  | word16 n => .word16 n
  | word32 n => .word32 n
  | flag on => .flag on
  | count what n _ => .count what n
  | sized what bytes _ => .sized what bytes
  | text what content _ => .sized what (Utf8.encode content)
  | raw bytes => .raw bytes

/-- How the field is asked for. -/
def get : Field → Get
  | byte _ | count .. => .byte
  | word16 _ => .word16
  | word32 _ => .word32
  | flag _ => .flag
  | sized .. => .sized
  | text .. => .text
  | raw bytes => .raw bytes.length

/-- What is put in and is to come back. -/
def value : Field → Value
  | byte n => .number n.toNat
  | word16 n => .number n.toNat
  | word32 n => .number n.toNat
  | flag on => .flag on
  | count _ n _ => .number n
  | sized _ bytes _ | raw bytes => .bytes bytes
  | text _ content _ => .text content

/-- How many bytes the field takes. -/
def size : Field → Nat
  | byte _ | flag _ | count .. => 1
  | word16 _ => 2
  | word32 _ => 4
  | sized _ bytes _ => 4 + bytes.length
  | text _ content _ => 4 + Utf8.size content
  | raw bytes => bytes.length

theorem length_bytes (field : Field) : field.put.bytes.length = field.size := by
  cases field <;> simp [put, Put.bytes, Put.inFront, Put.payload, size, Utf8.length_encode]

theorem complaint?_eq_none (field : Field) : field.put.complaint? = none := by
  cases field with
  | count what n small => exact if_pos (Nat.lt_succ_of_le small)
  | sized what bytes short => exact if_pos short
  | text what content short => exact if_pos (by rwa [Utf8.length_encode])
  | byte | word16 | word32 | flag | raw => rfl

/-- The value of a field is read from its bytes. -/
theorem reads (field : Field) : Reads field.get.step field.put.bytes field.value := by
  have hlength {bytes : List UInt8} (short : bytes.length < 2 ^ 32) :
      (UInt32.ofNat bytes.length).toNat = bytes.length := UInt32.toNat_ofNat_of_lt' short
  cases field with
  | byte n => exact (Reads.getByte n).map _
  | word16 n => exact (Reads.getWord16 n).map _
  | word32 n => exact (Reads.getWord32 n).map _
  | flag on => exact (Reads.getFlag on).map _
  | count what n small =>
      have hread := (Reads.getByte (UInt8.ofNat n)).map fun byte => Value.number byte.toNat
      rwa [UInt8.toNat_ofNat_of_lt' (Nat.lt_succ_of_le small)] at hread
  | sized what bytes short =>
      have hread := (Reads.getSized bytes (Nat.le_of_lt_succ short)).map Value.bytes
      rwa [hlength short] at hread
  | text what content short =>
      have hread := (Reads.getText content (Nat.le_of_lt_succ short)).map Value.text
      rwa [hlength (by rwa [Utf8.length_encode])] at hread
  | raw bytes => exact (Reads.getBytes bytes).map _

end Field

/-! ## All fields -/

/-- Fields that find room together are written, and asked for in the same order they come back
with their values, whatever is behind them. The end is found there if nothing is; otherwise the
bytes behind the fields are counted. -/
theorem fields_round_trip (capacity : Nat) (fields : List Field)
    (room : (fields.map Field.size).sum ≤ capacity) :
    ∃ written, written.length = (fields.map Field.size).sum ∧
      fields.forM (fun field => field.put.step) ⟨capacity, []⟩ = .ok () ⟨capacity, written⟩ ∧
      ∀ extra, ∃ later,
        fields.mapM (fun field => field.get.step) (.begin (written ++ extra)) =
          .ok (fields.map Field.value) later ∧
        later.offset = written.length ∧ later.remaining = extra.length ∧
        outcome expectEnd later =
          (if extra = [] then .ok () else .error (.trailingBytes written.length extra.length),
            later) := by
  have hlength : (fields.flatMap fun field => field.put.bytes).length =
      (fields.map Field.size).sum := by
    simp [List.length_flatMap, Field.length_bytes]
  refine ⟨fields.flatMap fun field => field.put.bytes, hlength, ?_, fun extra => ?_⟩
  · have hwrites := Writes.forM fields fun field => field.put.writes
    refine hwrites.ok ⟨capacity, []⟩ (fun field _ => field.complaint?_eq_none) ?_
    simpa [Writer.HasRoom, hlength] using room
  · have hreads := Reads.mapM fields Field.reads 0 extra
    rw [Nat.zero_add] at hreads
    refine ⟨_, hreads, rfl, rfl, ?_⟩
    rw [outcome_expectEnd]
    simp only [Reader.remaining, List.length_eq_zero_iff]

/-- A number, a count, a letter of two bytes and two more bytes fill a snapshot. -/
theorem fields_round_trip_full :
    let fields : List Field := [.word16 258, .count "heredoc" 255 (by decide),
      .text "tag" ['é'] (by decide), .raw [1, 2]]
    ∃ written : List UInt8, written.length = 11 ∧
      fields.forM (fun field => field.put.step) ⟨11, []⟩ = .ok () ⟨11, written⟩ ∧
      ∀ extra, ∃ later,
        fields.mapM (fun field => field.get.step) (.begin (written ++ extra)) =
          .ok [.number 258, .number 255, .text ['é'], .bytes [1, 2]] later ∧
        later.offset = written.length ∧ later.remaining = extra.length ∧
        outcome expectEnd later =
          (if extra = [] then .ok () else .error (.trailingBytes written.length extra.length),
            later) := by
  intro fields
  have room : (fields.map Field.size).sum ≤ 11 := Nat.le_refl 11
  exact fields_round_trip 11 fields room

end ContextLexer.Snapshot
