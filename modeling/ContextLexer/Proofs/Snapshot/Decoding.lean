/-
# What counts as a snapshot

A snapshot may come from anywhere, so decoding has to tell the bytes that a save could have
produced from all others. It accepts a little more than saves produce: every byte but zero
stands for true, and a layout may leave out its only width. Saving what was accepted gives
the same bytes, with these liberties put right. Nothing of what the receiver did before
shows in the outcome, not even where decoding stops in the middle.
-/

import ContextLexer.Proofs.Offside.Loading
import ContextLexer.Proofs.Snapshot.Taking

namespace ContextLexer

open Snapshot

/-! ## Heredocs in bytes -/

namespace Shell

/-- A heredoc as a snapshot may tell of it: three bytes for its modes, where every byte but
zero means that the mode is on, and a delimiter whose size can be told. -/
structure Record where
  raw : UInt8
  started : UInt8
  indented : UInt8
  delimiter : List Char
  size_lt : Utf8.size delimiter < 2 ^ 32

namespace Record

/-- The bytes of the record: the modes, the size of the delimiter, and the delimiter. -/
def bytes (r : Record) : List UInt8 :=
  [r.raw, r.started, r.indented] ++
    (littleEndian 4 (Utf8.size r.delimiter) ++ Utf8.encode r.delimiter)

/-- The heredoc that the record tells of. -/
def heredoc (r : Record) : Heredoc where
  raw := r.raw != 0
  started := r.started != 0
  indented := r.indented != 0
  delimiter := r.delimiter

/-- The record with one for every mode that is on. -/
def normal (r : Record) : Record :=
  { r with
    raw := flagByte (r.raw != 0)
    started := flagByte (r.started != 0)
    indented := flagByte (r.indented != 0) }

/-- The size of a delimiter is told in four bytes. -/
theorem toNat_size (r : Record) :
    (UInt32.ofNat (Utf8.encode r.delimiter).length).toNat = Utf8.size r.delimiter := by
  rw [Utf8.length_encode]
  exact UInt32.toNat_ofNat_of_lt' r.size_lt

/-- A heredoc is written as its record, put right. -/
theorem heredocFormat_heredoc (r : Record) :
    State.heredocFormat r.heredoc = r.normal.bytes := by
  have hsize := r.toNat_size
  simp only [State.heredocFormat, heredoc, hsize, bytes, normal]
  rfl

theorem reads_bytes (r : Record) : Reads State.getHeredoc r.bytes r.heredoc := by
  have htext := Reads.getText r.delimiter (Nat.le_of_lt_succ r.size_lt)
  rw [r.toNat_size] at htext
  exact (Reads.getFlag_byte r.raw).bind _ ((Reads.getFlag_byte r.started).bind _
    ((Reads.getFlag_byte r.indented).bind _ (htext.map fun delimiter =>
      Heredoc.mk (r.raw != 0) (r.started != 0) (r.indented != 0) delimiter)))

/-- What is read as a heredoc is a record of it. -/
theorem takes_getHeredoc :
    Takes State.getHeredoc fun h bytes => ∃ r : Record, r.heredoc = h ∧ r.bytes = bytes := by
  refine Takes.getFlag.bind ?_
  rintro _ _ ⟨raw, rfl, rfl⟩
  refine Takes.getFlag.bind ?_
  rintro _ _ ⟨started, rfl, rfl⟩
  refine Takes.getFlag.bind ?_
  rintro _ _ ⟨indented, rfl, rfl⟩
  refine Takes.getText.bind ?_
  rintro delimiter _ ⟨hsize, rfl⟩
  exact .pure ⟨⟨raw, started, indented, delimiter, hsize⟩, rfl, by simp [bytes]⟩

end Record

namespace State

/-- Heredocs are filled in only from as many records. -/
theorem exists_records {count : Nat} {now later : Loading State}
    (h : heredocFields count now = .ok () later) :
    ∃ records : List Record, records.length = count ∧
      now.input.rest = records.flatMap Record.bytes ++ later.input.rest := by
  induction count generalizing now with
  | zero =>
      cases h
      exact ⟨[], rfl, rfl⟩
  | succ count ih =>
      obtain ⟨found, read, hread, h⟩ := bind_eq_ok h
      obtain ⟨_, hbytes, record, -, rfl⟩ := Record.takes_getHeredoc.of_field hread
      obtain ⟨_, pushed, hpush, hmore⟩ := bind_eq_ok h
      obtain ⟨records, hcount, hrest⟩ := ih hmore
      refine ⟨record :: records, by rw [List.length_cons, hcount], ?_⟩
      rw [hbytes, ← input_of_fill hpush, hrest, List.flatMap_cons, List.append_assoc]

/-- The bytes of a state: the depth of a glob, a count, and as many records. -/
def snapshotOf (depth count : UInt8) (records : List Record) : List UInt8 :=
  depth :: count :: records.flatMap Record.bytes

/-- Bytes that are loaded without a failure are of this form. -/
theorem exists_snapshotOf {bytes : List UInt8} (h : (load bytes).failure = none)
    (hbytes : bytes ≠ []) :
    ∃ depth count records, records.length = count.toNat ∧
      bytes = snapshotOf depth count records := by
  rw [load, if_neg hbytes] at h
  obtain ⟨later, hok⟩ := exists_ok_of_run h
  obtain ⟨depth, _, hdepth, hok⟩ := bind_eq_ok hok
  obtain ⟨_, hfirst, rfl⟩ := Takes.getByte.of_field hdepth
  obtain ⟨_, _, hfill, hok⟩ := bind_eq_ok hok
  obtain ⟨count, _, hcount, hok⟩ := bind_eq_ok hok
  obtain ⟨_, hsecond, rfl⟩ := Takes.getByte.of_field hcount
  obtain ⟨_, _, hrecords, hend⟩ := bind_eq_ok hok
  obtain ⟨records, hlength, hrest⟩ := exists_records hrecords
  refine ⟨depth, count, records, hlength, ?_⟩
  rw [rest_of_expectEnd hend, List.append_nil] at hrest
  calc bytes = [depth] ++ ([count] ++ records.flatMap Record.bytes) := by
        rw [← hrest, ← hsecond, input_of_fill hfill, ← hfirst]
        rfl
    _ = snapshotOf depth count records := rfl

/-- Bytes of this form are loaded without a failure. -/
theorem load_snapshotOf (depth : UInt8) {count : UInt8} {records : List Record}
    (hcount : records.length = count.toNat) :
    load (snapshotOf depth count records) =
      ⟨⟨depth, (records.map Record.heredoc).reverse⟩, none⟩ :=
  load_heredocs (fun record _ => record.reads_bytes) depth hcount.symm

/-- What was loaded is written with the modes put right. -/
theorem format_load (depth : UInt8) {count : UInt8} {records : List Record}
    (hcount : records.length = count.toNat) :
    (load (snapshotOf depth count records)).state.format =
      snapshotOf depth count (records.map Record.normal) := by
  have hbytes : heredocBytes (records.map Record.heredoc) =
      (records.map Record.normal).flatMap Record.bytes := by
    simp only [heredocBytes, List.flatMap_map, Record.heredocFormat_heredoc]
  rw [load_snapshotOf depth hcount, format]
  simp only [List.reverse_reverse, List.length_reverse, List.length_map, hcount,
    UInt8.ofNat_toNat, hbytes]
  rfl

theorem legal_load (depth : UInt8) {count : UInt8} {records : List Record}
    (hcount : records.length = count.toNat) :
    (load (snapshotOf depth count records)).state.legal := by
  rw [load_snapshotOf depth hcount, legal]
  refine ⟨?_, ?_⟩
  · have hless := count.toNat_lt
    simp only [List.length_reverse, List.length_map]
    omega
  · intro h hh
    obtain ⟨record, -, rfl⟩ := List.mem_map.mp (List.mem_reverse.mp hh)
    exact record.size_lt

end State

end Shell

/-! ## Tags in bytes -/

/-- The first byte tells whether a string is open, also where the others are no text. -/
theorem Delimited.State.load_cons (first : UInt8) (bytes : List UInt8) :
    load (first :: bytes) =
      match Utf8.decode? bytes with
      | some tag => ⟨⟨first != 0, tag⟩, none⟩
      | none => ⟨⟨first != 0, []⟩, some (.invalidUtf8 1)⟩ := by
  have hflag : getFlag (.begin (first :: bytes)) = .ok (first != 0) ⟨0 + 1, bytes⟩ :=
    Reads.getFlag_byte first 0 bytes
  have hrest : getRestText ⟨0 + 1, bytes⟩ =
      asText (0 + 1) bytes ⟨0 + 1 + bytes.length, []⟩ := by
    simp only [getRestText, Bind.bind, EStateM.bind, MonadState.get, getThe, MonadStateOf.get,
      EStateM.get, getBytes_eq, Reader.remaining, le_refl, if_true, List.take_length,
      List.drop_length]
  rw [load, if_neg (List.cons_ne_nil first bytes), Load.run]
  simp only [fields, Bind.bind, EStateM.bind, field, hflag, fill, modify, modifyGet,
    MonadStateOf.modifyGet, EStateM.modifyGet, hrest, asText]
  cases Utf8.decode? bytes with
  | none => rfl
  | some tag => rfl

/-! ## All three -/

namespace Scanner

variable (σ : Type) {κ ρ : Type} [DecidableEq κ] [Vocabulary κ] [Scanner σ κ]

/-- Decoding accepts exactly the empty snapshot and the bytes with a normal form. What was
accepted is saved as its normal form, given the room for it. And the outcome for the part
of the state that lasts from snapshot to snapshot is the same for every receiver. -/
structure Decodes (lasting : σ → ρ) (normalizes : (bytes normal : List UInt8) → Prop) :
    Prop where
  /-- Bytes are accepted if there are none, or if they have a normal form. -/
  accepted : ∀ (receiver : σ) (bytes : List UInt8),
    (Scanner.load receiver bytes).failure = none ↔ bytes = [] ∨ ∃ normal, normalizes bytes normal
  /-- A save after that gives the normal form. -/
  saved : ∀ (receiver : σ) (bytes normal : List UInt8), normalizes bytes normal →
    ∀ capacity, normal.length ≤ capacity →
      Scanner.save (Scanner.load receiver bytes).state capacity = normal
  /-- Whether bytes are accepted or not, the receiver does not matter. -/
  forgetful : ∀ (receiver other : σ) (bytes : List UInt8),
    (Scanner.load receiver bytes).failure = (Scanner.load other bytes).failure ∧
    lasting (Scanner.load receiver bytes).state = lasting (Scanner.load other bytes).state

end Scanner

/-- A layout is one byte for the owed dedents and two for each width. -/
theorem Offside.State.decodes :
    Scanner.Decodes Offside.State (fun s => { s with queue := [] }) fun bytes normal =>
      bytes.length % 2 = 1 ∧ normal = if bytes.length = 1 then bytes ++ [0, 0] else bytes where
  accepted receiver bytes := by
    cases bytes with
    | nil => exact iff_of_true rfl (.inl rfl)
    | cons byte bytes =>
        have hload : Scanner.load receiver (byte :: bytes) = _ := receiver.load_cons byte bytes
        have hodd : (bytes.length + 1) % 2 = 1 ↔ bytes.length % 2 = 0 := by omega
        rw [hload]
        simp [hodd]
  saved receiver bytes normal h capacity hcapacity := by
    obtain ⟨hodd, rfl⟩ := h
    have hformat := receiver.format_load hodd
    have howed : (receiver.load bytes).state.owed ≤ 255 := by
      cases bytes with
      | nil => cases hodd
      | cons byte bytes =>
          rw [load_cons]
          exact Nat.le_of_lt_succ byte.toNat_lt
    have hsave : Scanner.save (receiver.load bytes).state capacity = _ :=
      Scanner.save_eq (writes_format _) capacity
    rw [hformat, if_pos ⟨howed, hcapacity⟩] at hsave
    exact hsave
  forgetful receiver other bytes := by
    cases bytes with
    | nil => exact ⟨rfl, rfl⟩
    | cons byte bytes =>
        have hload (s : State) : Scanner.load s (byte :: bytes) = _ := s.load_cons byte bytes
        rw [hload, hload]
        exact ⟨rfl, rfl⟩

/-- A shell state is the depth of a glob, a count, and as many records of heredocs. -/
theorem Shell.State.decodes :
    Scanner.Decodes Shell.State id fun bytes normal =>
      ∃ depth count records, records.length = count.toNat ∧
        bytes = snapshotOf depth count records ∧
        normal = snapshotOf depth count (records.map Record.normal) where
  accepted receiver bytes := by
    constructor
    · intro h
      by_cases hbytes : bytes = []
      · exact .inl hbytes
      · obtain ⟨depth, count, records, hcount, rfl⟩ := exists_snapshotOf h hbytes
        exact .inr ⟨_, depth, count, records, hcount, rfl, rfl⟩
    · rintro (rfl | ⟨normal, depth, count, records, hcount, rfl, -⟩)
      · rfl
      · exact congrArg Loaded.failure (load_snapshotOf depth hcount)
  saved receiver bytes normal h capacity hcapacity := by
    obtain ⟨depth, count, records, hcount, rfl, rfl⟩ := h
    have hsave : Scanner.save (load (snapshotOf depth count records)).state capacity = _ :=
      Scanner.save_eq (writes_format _) capacity
    rw [format_load depth hcount, if_pos ⟨legal_load depth hcount, hcapacity⟩] at hsave
    exact hsave
  forgetful _ _ _ := ⟨rfl, rfl⟩

/-- A state between literals is a byte that tells whether a string is open, and a tag. -/
theorem Delimited.State.decodes :
    Scanner.Decodes Delimited.State id fun bytes normal =>
      ∃ first tag, bytes = first :: Utf8.encode tag ∧
        normal = flagByte (first != 0) :: Utf8.encode tag where
  accepted receiver bytes := by
    cases bytes with
    | nil => exact iff_of_true rfl (.inl rfl)
    | cons first bytes =>
        have hload : Scanner.load receiver (first :: bytes) = _ := load_cons first bytes
        rw [hload]
        cases htag : Utf8.decode? bytes with
        | none =>
            refine iff_of_false (by simp) ?_
            rintro (hnil | ⟨normal, _, tag, hbytes, -⟩)
            · cases hnil
            · cases hbytes
              rw [Utf8.decode?_encode] at htag
              cases htag
        | some tag =>
            rw [Utf8.decode?_eq_some_iff] at htag
            exact iff_of_true rfl (.inr ⟨_, first, tag, by rw [htag], rfl⟩)
  saved receiver bytes normal h capacity hcapacity := by
    obtain ⟨first, tag, rfl, rfl⟩ := h
    have hload : Scanner.load receiver (first :: Utf8.encode tag) =
        ⟨⟨first != 0, tag⟩, none⟩ := by
      change load (first :: Utf8.encode tag) = _
      rw [load_cons, Utf8.decode?_encode]
    have hsave : Scanner.save (State.mk (first != 0) tag) capacity = _ :=
      Scanner.save_eq (writes_format _) capacity
    rw [hload]
    exact hsave.trans (if_pos ⟨trivial, hcapacity⟩)
  forgetful _ _ _ := ⟨rfl, rfl⟩

/-- Each scanner decodes its own format and nothing else, and saves what it has decoded as a
normal form: one for every mode that is on, and a width of zero where a layout has none. The
outcome is the same for every receiver, which keeps nothing but a layout's queue, and that
only if there are bytes at all. An even number of bytes, of which there are some, is a
layout with its last byte too many. -/
theorem snapshots_decode :
    (Scanner.Decodes Offside.State (fun s => { s with queue := [] }) fun bytes normal =>
      bytes.length % 2 = 1 ∧ normal = if bytes.length = 1 then bytes ++ [0, 0] else bytes) ∧
    (∀ (receiver : Offside.State) (bytes : List UInt8), bytes ≠ [] →
      (Scanner.load receiver bytes).state.queue = receiver.queue ∧
      (bytes.length % 2 = 0 →
        (Scanner.load receiver bytes).failure = some (.trailingBytes (bytes.length - 1) 1))) ∧
    (Scanner.Decodes Shell.State id fun bytes normal =>
      ∃ depth count records, records.length = count.toNat ∧
        bytes = Shell.State.snapshotOf depth count records ∧
        normal = Shell.State.snapshotOf depth count (records.map Shell.Record.normal)) ∧
    (Scanner.Decodes Delimited.State id fun bytes normal =>
      ∃ first tag, bytes = first :: Utf8.encode tag ∧
        normal = flagByte (first != 0) :: Utf8.encode tag) := by
  refine ⟨Offside.State.decodes, ?_, Shell.State.decodes, Delimited.State.decodes⟩
  intro receiver bytes hbytes
  refine ⟨receiver.queue_load hbytes, ?_⟩
  intro heven
  obtain ⟨byte, bytes, rfl⟩ := List.exists_cons_of_ne_nil hbytes
  have hload : Scanner.load receiver (byte :: bytes) = _ := receiver.load_cons byte bytes
  have hodd : ¬ bytes.length % 2 = 0 := by
    rw [List.length_cons] at heven
    omega
  rw [hload, if_neg hodd]
  rfl

/-- A newline waits while two bytes are refused. -/
theorem snapshots_decode_refused :
    let receiver : Offside.State := ⟨0, [4], 0, [.newline]⟩
    (Scanner.load receiver [0, 7]).state.queue = [.newline] ∧
      (Scanner.load receiver [0, 7]).failure = some (.trailingBytes 1 1) := by
  intro receiver
  obtain ⟨hqueue, hfailure⟩ := snapshots_decode.2.1 receiver [0, 7] (by decide)
  exact ⟨hqueue, hfailure (by decide)⟩

end ContextLexer
