/-
# Fields and their bytes

A field is understood by its bytes. A step that writes it appends them if they fit and a
condition of its own holds, and fails otherwise; a step that reads it takes exactly them
from whatever comes next and returns the value. Both notions pass from steps to sequences
of steps, so a format is known once its fields are.
-/

import Mathlib
import ContextLexer.Snapshot.Reader
import ContextLexer.Snapshot.Writer

namespace ContextLexer.Snapshot

/-! ## Numbers -/

/-- A number below the limit of its width is read back. -/
theorem ofLittleEndian_littleEndian {width n : Nat} (h : n < 256 ^ width) :
    ofLittleEndian (littleEndian width n) = n := by
  induction width generalizing n with
  | zero => simp_all [littleEndian, ofLittleEndian]
  | succ width ih =>
    have hdiv : n / 256 < 256 ^ width := by
      rw [Nat.pow_succ] at h
      omega
    have hbyte : (UInt8.ofNat (n % 256)).toNat = n % 256 := by simp
    rw [littleEndian, ofLittleEndian, ih hdiv, hbyte]
    omega

theorem ofLittleEndian_lt (bytes : List UInt8) : ofLittleEndian bytes < 256 ^ bytes.length := by
  induction bytes with
  | nil => simp [ofLittleEndian]
  | cons byte bytes ih =>
    have hbyte := byte.toNat_lt
    rw [ofLittleEndian, List.length_cons, Nat.pow_succ]
    omega

/-! ## Writing -/

namespace Writer

/-- The writer after some bytes have been appended. -/
def append (writer : Writer) (bytes : List UInt8) : Writer :=
  { writer with written := writer.written ++ bytes }

/-- Whether there is room for a number of bytes. -/
def HasRoom (writer : Writer) (count : Nat) : Prop :=
  writer.written.length + count ≤ writer.capacity

theorem append_append (writer : Writer) (bytes more : List UInt8) :
    (writer.append bytes).append more = writer.append (bytes ++ more) := by
  simp [append]

theorem hasRoom_append {writer : Writer} {bytes : List UInt8} {count : Nat} :
    (writer.append bytes).HasRoom count ↔ writer.HasRoom (bytes.length + count) := by
  simp [append, HasRoom, Nat.add_assoc]

theorem HasRoom.le {writer : Writer} {count less : Nat} (h : writer.HasRoom count)
    (hle : less ≤ count) : writer.HasRoom less :=
  Nat.le_trans (Nat.add_le_add_left hle _) h

end Writer

instance (writer : Writer) (count : Nat) : Decidable (writer.HasRoom count) :=
  inferInstanceAs (Decidable (_ ≤ _))

/-- Bytes are appended all together or not at all. -/
theorem putRaw_eq (bytes : List UInt8) (writer : Writer) :
    putRaw bytes writer =
      if writer.HasRoom bytes.length then .ok () (writer.append bytes)
      else .error (.overflow (writer.written.length + bytes.length) writer.capacity) writer := by
  by_cases hroom : writer.HasRoom bytes.length
  · have hfits : ¬ writer.capacity < writer.written.length + bytes.length :=
      Nat.not_lt.mpr hroom
    rw [if_pos hroom]
    simp [putRaw, Bind.bind, EStateM.bind, MonadState.get, getThe, MonadStateOf.get,
      EStateM.get, hfits, set, EStateM.set, Writer.append]
  · have hfull : writer.capacity < writer.written.length + bytes.length := Nat.not_le.mp hroom
    rw [if_neg hroom]
    simp [putRaw, Bind.bind, EStateM.bind, MonadState.get, getThe, MonadStateOf.get,
      EStateM.get, hfull, throw, throwThe, MonadExceptOf.throw, EStateM.throw]

/-- A step that appends bytes if they are legal and fit, and fails otherwise. Only writers
that have not gone beyond their capacity are asked about. -/
structure Writes (step : Write Unit) (bytes : List UInt8) (legal : Prop) : Prop where
  /-- Legal bytes that fit are appended. -/
  ok : ∀ writer : Writer, legal → writer.HasRoom bytes.length →
    step writer = .ok () (writer.append bytes)
  /-- Everything else is an error. -/
  error : ∀ writer : Writer, writer.HasRoom 0 → ¬ (legal ∧ writer.HasRoom bytes.length) →
    ∃ error later, step writer = .error error later

namespace Writes

variable {first second : Write Unit} {bytes more : List UInt8} {legal also : Prop}

theorem nothing : Writes (pure ()) [] True where
  ok writer _ _ := by simp [Writer.append, pure, EStateM.pure]
  error writer hroom h := absurd ⟨trivial, hroom⟩ h

/-- Two steps, one after the other, write their bytes one after the other. -/
theorem bind (hfirst : Writes first bytes legal) (hsecond : Writes second more also) :
    Writes (first >>= fun _ => second) (bytes ++ more) (legal ∧ also) where
  ok writer hlegal hroom := by
    rw [List.length_append] at hroom
    have hok := hfirst.ok writer hlegal.1 (hroom.le (Nat.le_add_right _ _))
    have hmore := hsecond.ok (writer.append bytes) hlegal.2 (Writer.hasRoom_append.mpr hroom)
    simp only [Bind.bind, EStateM.bind, hok, hmore, Writer.append_append]
  error writer hroom h := by
    rw [List.length_append] at h
    by_cases hthen : legal ∧ writer.HasRoom bytes.length
    · have hok := hfirst.ok writer hthen.1 hthen.2
      have hrest : ¬ (also ∧ (writer.append bytes).HasRoom more.length) := fun hmore =>
        h ⟨⟨hthen.1, hmore.1⟩, Writer.hasRoom_append.mp hmore.2⟩
      obtain ⟨error, later, hfails⟩ :=
        hsecond.error (writer.append bytes) (Writer.hasRoom_append.mpr hthen.2) hrest
      exact ⟨error, later, by simp only [Bind.bind, EStateM.bind, hok, hfails]⟩
    · obtain ⟨error, later, hfails⟩ := hfirst.error writer hroom hthen
      exact ⟨error, later, by simp only [Bind.bind, EStateM.bind, hfails]⟩

/-- The items of a list are written one after the other. -/
theorem forM {α : Type} {step : α → Write Unit} {bytes : α → List UInt8}
    {legal : α → Prop} (items : List α)
    (h : ∀ item, Writes (step item) (bytes item) (legal item)) :
    Writes (items.forM step) (items.flatMap bytes) (∀ item ∈ items, legal item) := by
  induction items with
  | nil => simpa using nothing
  | cons item items ih =>
      simp only [List.flatMap_cons, List.forall_mem_cons]
      exact (h item).bind ih

/-- A step that demands something before it writes. -/
theorem guard {condition : Prop} [Decidable condition] {error : Error}
    (h : Writes first bytes legal) :
    Writes (do if condition then throw error
               first) bytes (¬ condition ∧ legal) where
  ok writer hlegal hroom := by
    simpa [hlegal.1] using h.ok writer hlegal.2 hroom
  error writer hroom hnot := by
    by_cases hcondition : condition
    · exact ⟨error, writer, by simp [hcondition, Bind.bind, EStateM.bind, throw, throwThe,
        MonadExceptOf.throw, EStateM.throw]⟩
    · have := h.error writer hroom fun hall => hnot ⟨⟨hcondition, hall.1⟩, hall.2⟩
      simpa [hcondition] using this

theorem putRaw (bytes : List UInt8) : Writes (putRaw bytes) bytes True where
  ok writer _ hroom := by
    rw [putRaw_eq, if_pos hroom]
  error writer _ h := by
    rw [putRaw_eq, if_neg fun hroom => h ⟨trivial, hroom⟩]
    exact ⟨_, _, rfl⟩

theorem putByte (byte : UInt8) : Writes (putByte byte) [byte] True := putRaw [byte]

/-- The byte that stands for a truth value. -/
theorem putFlag (flag : Bool) : Writes (putFlag flag) [if flag then 1 else 0] True :=
  putByte _

theorem putWord16 (n : UInt16) : Writes (putWord16 n) (littleEndian 2 n.toNat) True :=
  putRaw _

theorem putWord32 (n : UInt32) : Writes (putWord32 n) (littleEndian 4 n.toNat) True :=
  putRaw _

theorem putCount (what : String) (count : Nat) :
    Writes (putCount what count) [UInt8.ofNat count] (¬ 255 < count ∧ True) :=
  (putByte _).guard

theorem putSized (what : String) (bytes : List UInt8) :
    Writes (putSized what bytes)
      (littleEndian 4 (UInt32.ofNat bytes.length).toNat ++ bytes)
      (¬ 4294967295 < bytes.length ∧ True ∧ True) :=
  ((putWord32 _).bind (putRaw bytes)).guard

end Writes

/-! ## Reading -/

/-- Bytes are read all together or not at all. -/
theorem getBytes_eq (count : Nat) (reader : Reader) :
    getBytes count reader =
      if count ≤ reader.remaining then
        .ok (reader.rest.take count) ⟨reader.offset + count, reader.rest.drop count⟩
      else .error (.truncated reader.offset count reader.remaining) reader := by
  by_cases hfits : count ≤ reader.remaining
  · rw [if_pos hfits]
    simp [getBytes, Bind.bind, EStateM.bind, MonadState.get, getThe, MonadStateOf.get,
      EStateM.get, Nat.not_lt.mpr hfits, set, EStateM.set, Pure.pure, EStateM.pure]
  · rw [if_neg hfits]
    simp [getBytes, Bind.bind, EStateM.bind, MonadState.get, getThe, MonadStateOf.get,
      EStateM.get, Nat.not_le.mp hfits, throw, throwThe, MonadExceptOf.throw, EStateM.throw]

/-- A step that reads a value from the bytes that come next, whatever follows them. -/
def Reads {α : Type} (step : Read α) (bytes : List UInt8) (value : α) : Prop :=
  ∀ offset rest, step ⟨offset, bytes ++ rest⟩ = .ok value ⟨offset + bytes.length, rest⟩

namespace Reads

variable {α β : Type} {bytes more : List UInt8}

theorem pure (value : α) : Reads (Pure.pure value) [] value := fun _ _ => rfl

/-- A step that goes on with the value that another step has read. -/
theorem bind {first : Read α} {value : α} {result : β} (next : α → Read β)
    (hfirst : Reads first bytes value) (hnext : Reads (next value) more result) :
    Reads (first >>= next) (bytes ++ more) result := by
  intro offset rest
  have hok := hfirst offset (more ++ rest)
  have hmore := hnext (offset + bytes.length) rest
  simp only [Bind.bind, EStateM.bind, List.append_assoc, hok, hmore, List.length_append,
    Nat.add_assoc]

theorem map {step : Read α} {value : α} (h : Reads step bytes value) (f : α → β) :
    Reads (do return f (← step)) bytes (f value) := by
  have hbind := h.bind (fun value => Pure.pure (f value)) (.pure (f value))
  rwa [List.append_nil] at hbind

/-- The values of a list are read from its bytes one after the other. -/
theorem mapM {step : α → Read β} {bytes : α → List UInt8} {value : α → β} (items : List α)
    (h : ∀ item, Reads (step item) (bytes item) (value item)) :
    Reads (items.mapM step) (items.flatMap bytes) (items.map value) := by
  induction items with
  | nil => exact .pure []
  | cons item items ih =>
      rw [List.mapM_cons, List.flatMap_cons, List.map_cons]
      exact (h item).bind _ (ih.map _)

theorem getBytes (bytes : List UInt8) : Reads (getBytes bytes.length) bytes bytes := by
  intro offset rest
  have hfits : bytes.length ≤ (Reader.mk offset (bytes ++ rest)).remaining := by
    simp [Reader.remaining]
  rw [getBytes_eq, if_pos hfits]
  simp

theorem getByte (byte : UInt8) : Reads getByte [byte] byte := by
  have h := (getBytes [byte]).map fun bytes => UInt8.ofNat (ofLittleEndian bytes)
  have hbyte : UInt8.ofNat (ofLittleEndian [byte]) = byte := by simp [ofLittleEndian]
  rwa [hbyte] at h

theorem getFlag_byte (byte : UInt8) : Reads getFlag [byte] (byte != 0) :=
  (getByte byte).map (· != 0)

theorem getFlag (flag : Bool) : Reads getFlag [if flag then 1 else 0] flag := by
  have h := getFlag_byte (if flag then 1 else 0)
  cases flag <;> exact h

theorem getWord16 (n : UInt16) : Reads getWord16 (littleEndian 2 n.toNat) n := by
  have h := (getBytes (littleEndian 2 n.toNat)).map fun bytes =>
    UInt16.ofNat (ofLittleEndian bytes)
  rw [ofLittleEndian_littleEndian n.toNat_lt, UInt16.ofNat_toNat, length_littleEndian] at h
  exact h

theorem getWord32 (n : UInt32) : Reads getWord32 (littleEndian 4 n.toNat) n := by
  have h := (getBytes (littleEndian 4 n.toNat)).map fun bytes =>
    UInt32.ofNat (ofLittleEndian bytes)
  rw [ofLittleEndian_littleEndian n.toNat_lt, UInt32.ofNat_toNat, length_littleEndian] at h
  exact h

/-- Bytes with their number in front are read back if the number has four bytes. -/
theorem getSized (bytes : List UInt8) (h : bytes.length ≤ 4294967295) :
    Reads getSized (littleEndian 4 (UInt32.ofNat bytes.length).toNat ++ bytes) bytes := by
  have hlength : (UInt32.ofNat bytes.length).toNat = bytes.length := by
    rw [UInt32.toNat_ofNat']
    omega
  refine (getWord32 _).bind _ ?_
  rw [hlength]
  exact getBytes bytes

theorem asText (offset : Nat) (text : List Char) :
    Reads (asText offset (Utf8.encode text)) [] text := by
  rw [Snapshot.asText, Utf8.decode?_encode]
  exact .pure text

theorem getText (text : List Char) (h : Utf8.size text ≤ 4294967295) :
    Reads getText (littleEndian 4 (UInt32.ofNat (Utf8.encode text).length).toNat ++
      Utf8.encode text) text := by
  intro offset rest
  have hsized := getSized (Utf8.encode text) (by rwa [Utf8.length_encode])
  have hread := hsized.bind _ (asText offset text) offset rest
  rwa [List.append_nil] at hread

end Reads

/-! ## Filling in -/

/-- A step that changes a state by what it reads from the bytes that come next, in front of
a known rest. -/
def Loads {σ : Type} (step : Load σ Unit) (bytes rest : List UInt8) (change : σ → σ) : Prop :=
  ∀ offset state, step ⟨⟨offset, bytes ++ rest⟩, state⟩ =
    .ok () ⟨⟨offset + bytes.length, rest⟩, change state⟩

namespace Loads

variable {σ α : Type} {bytes more rest : List UInt8} {change further : σ → σ}

theorem nothing (rest : List UInt8) : Loads (Pure.pure ()) [] rest (id : σ → σ) :=
  fun _ _ => rfl

/-- A part of the state is filled in, and then other steps follow. -/
theorem fill {next : Load σ Unit} (change : σ → σ) (hnext : Loads next bytes rest further) :
    Loads (fill change >>= fun _ => next) bytes rest (further ∘ change) :=
  fun offset state => hnext offset (change state)

/-- The last step demands that nothing is left. -/
theorem bind_expectEnd {first : Load σ Unit} (hfirst : Loads first bytes [] change) :
    Loads (first >>= fun _ => Snapshot.field expectEnd) bytes [] change := by
  intro offset state
  have hok := hfirst offset state
  simp only [Bind.bind, EStateM.bind, hok]
  rfl

/-- A field is read, and the steps after it go on with its value. -/
theorem field {read : Read α} {value : α} (next : α → Load σ Unit)
    (hread : Reads read bytes value) (hnext : Loads (next value) more rest change) :
    Loads (field read >>= next) (bytes ++ more) rest change := by
  intro offset state
  have hok := hread offset (more ++ rest)
  have hmore := hnext (offset + bytes.length) state
  simp only [Bind.bind, EStateM.bind, Snapshot.field, List.append_assoc, hok, hmore,
    List.length_append, Nat.add_assoc]

/-- The text that makes up all the rest is read. -/
theorem restText {next : List Char → Load σ Unit} {text : List Char}
    (hnext : Loads (next text) [] [] change) :
    Loads (Snapshot.field getRestText >>= next) (Utf8.encode text) [] change := by
  intro offset state
  have hok : getRestText ⟨offset, Utf8.encode text⟩ =
      .ok text ⟨offset + (Utf8.encode text).length, []⟩ := by
    have hbytes := Reads.getBytes (Utf8.encode text)
    have hread := hbytes.bind _ (Reads.asText offset text) offset []
    rwa [List.append_nil, List.append_nil] at hread
  have hmore := hnext (offset + (Utf8.encode text).length) state
  simp only [Bind.bind, EStateM.bind, Snapshot.field, List.append_nil, hok]
  exact hmore

/-- The steps after a look at what is left may depend on it. -/
theorem get {next : Loading σ → Load σ Unit}
    (hnext : ∀ offset state, Loads (next ⟨⟨offset, bytes ++ rest⟩, state⟩) bytes rest change) :
    Loads (MonadState.get >>= next) bytes rest change :=
  fun offset state => hnext offset state offset state

theorem expectEnd : Loads (Snapshot.field expectEnd) [] [] (id : σ → σ) :=
  fun _ _ => rfl

/-- All bytes of a snapshot are taken in without a failure. -/
theorem run {load : Load σ Unit} (h : Loads load bytes [] change) (state : σ) :
    load.run state bytes = ⟨change state, none⟩ := by
  have hok := h 0 state
  rw [List.append_nil] at hok
  rw [Load.run, Reader.begin, hok]

end Loads

end ContextLexer.Snapshot
