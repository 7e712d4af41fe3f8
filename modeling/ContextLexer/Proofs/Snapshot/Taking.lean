/-
# What steps take that succeed

A step that reads a field may fail, so it is understood from its successes: the value that
it returns tells in which format the bytes were that it took, and nothing else was taken.
Formats of steps make up those of sequences of steps. This is the converse of reading what
was written, and it needs no knowledge of who has written the bytes.
-/

import ContextLexer.Proofs.Snapshot.Fields

namespace ContextLexer.Snapshot

theorem bind_eq_ok {ε ρ α β : Type} {first : EStateM ε ρ α} {next : α → EStateM ε ρ β}
    {now later : ρ} {result : β} (h : (first >>= next) now = .ok result later) :
    ∃ value middle, first now = .ok value middle ∧ next value middle = .ok result later := by
  simp only [Bind.bind, EStateM.bind] at h
  split at h
  case h_1 value middle hfirst => exact ⟨value, middle, hfirst, h⟩
  case h_2 => cases h

/-- Whatever value a step returns, the bytes that it has taken are in a format of the
value. -/
def Takes {α : Type} (step : Read α) (format : α → List UInt8 → Prop) : Prop :=
  ∀ reader value later, step reader = .ok value later →
    ∃ bytes, reader.rest = bytes ++ later.rest ∧ format value bytes

namespace Takes

variable {α β : Type}

theorem pure {value : α} {format : α → List UInt8 → Prop} (h : format value []) :
    Takes (Pure.pure value) format := by
  intro reader found later hok
  cases hok
  exact ⟨[], rfl, h⟩

/-- The bytes of two steps are those of the first one, and then those of the second one. -/
theorem bind {first : Read α} {next : α → Read β} {front : α → List UInt8 → Prop}
    {format : β → List UInt8 → Prop} (hfirst : Takes first front)
    (hnext : ∀ value bytes, front value bytes →
      Takes (next value) fun result more => format result (bytes ++ more)) :
    Takes (first >>= next) format := by
  intro reader result later hok
  obtain ⟨value, middle, hvalue, hresult⟩ := bind_eq_ok hok
  obtain ⟨bytes, hbytes, hfront⟩ := hfirst reader value middle hvalue
  obtain ⟨more, hmore, hformat⟩ := hnext value bytes hfront middle result later hresult
  exact ⟨bytes ++ more, by rw [hbytes, hmore, List.append_assoc], hformat⟩

/-- A look at the reader takes nothing. -/
theorem get {next : Reader → Read β} {format : β → List UInt8 → Prop}
    (hnext : ∀ reader, Takes (next reader) format) : Takes (MonadState.get >>= next) format :=
  fun reader => hnext reader reader

theorem mono {step : Read α} {format wider : α → List UInt8 → Prop} (h : Takes step format)
    (wide : ∀ value bytes, format value bytes → wider value bytes) : Takes step wider := by
  intro reader value later hok
  obtain ⟨bytes, hbytes, hformat⟩ := h reader value later hok
  exact ⟨bytes, hbytes, wide value bytes hformat⟩

theorem getBytes (count : Nat) :
    Takes (getBytes count) fun value bytes => bytes = value ∧ value.length = count := by
  intro reader value later hok
  rw [getBytes_eq] at hok
  split at hok
  case isTrue hfits =>
    cases hok
    exact ⟨_, (List.take_append_drop count reader.rest).symm, rfl,
      List.length_take_of_le hfits⟩
  case isFalse => cases hok

theorem getByte : Takes getByte fun byte bytes => bytes = [byte] := by
  refine (getBytes 1).bind ?_
  rintro _ value ⟨rfl, hlength⟩
  obtain ⟨byte, rfl⟩ := List.length_eq_one_iff.mp hlength
  exact .pure (by simp [ofLittleEndian])

theorem getFlag : Takes getFlag fun flag bytes => ∃ byte, bytes = [byte] ∧ flag = (byte != 0) := by
  refine getByte.bind ?_
  rintro byte _ rfl
  exact .pure ⟨byte, rfl, rfl⟩

theorem getWord32 : Takes getWord32 fun n bytes => bytes = littleEndian 4 n.toNat := by
  refine (getBytes 4).bind ?_
  rintro _ value ⟨rfl, hlength⟩
  have hless := ofLittleEndian_lt value
  have hvalue := littleEndian_ofLittleEndian value
  rw [hlength] at hless hvalue
  exact .pure (by rw [UInt32.toNat_ofNat_of_lt' hless, hvalue, List.append_nil])

theorem getSized : Takes getSized fun value bytes =>
    value.length < 2 ^ 32 ∧ bytes = littleEndian 4 value.length ++ value := by
  refine getWord32.bind ?_
  rintro n _ rfl
  refine (getBytes n.toNat).mono ?_
  rintro _ value ⟨rfl, hlength⟩
  exact ⟨hlength ▸ n.toNat_lt, by rw [hlength]⟩

theorem asText (offset : Nat) (raw : List UInt8) :
    Takes (asText offset raw) fun text bytes => bytes = [] ∧ raw = Utf8.encode text := by
  rw [Snapshot.asText]
  split
  case h_1 text htext => exact .pure ⟨rfl, Utf8.decode?_eq_some_iff.mp htext⟩
  case h_2 =>
    intro reader value later hok
    cases hok

theorem getText : Takes getText fun text bytes =>
    Utf8.size text < 2 ^ 32 ∧ bytes = littleEndian 4 (Utf8.size text) ++ Utf8.encode text := by
  refine .get fun reader => getSized.bind ?_
  rintro raw _ ⟨hless, rfl⟩
  refine (asText reader.offset raw).mono ?_
  rintro text _ ⟨rfl, rfl⟩
  rw [Utf8.length_encode] at hless ⊢
  exact ⟨hless, List.append_nil _⟩

end Takes

/-! ## Filling in -/

/-- A field is taken from what comes next. -/
theorem Takes.of_field {σ α : Type} {read : Read α} {format : α → List UInt8 → Prop}
    (h : Takes read format) {now later : Loading σ} {value : α}
    (hok : field read now = .ok value later) :
    ∃ bytes, now.input.rest = bytes ++ later.input.rest ∧ format value bytes := by
  simp only [field] at hok
  split at hok
  case h_1 found input hread =>
    cases hok
    exact h _ _ _ hread
  case h_2 => cases hok

/-- Filling in a part of a state takes nothing. -/
theorem input_of_fill {σ : Type} {change : σ → σ} {now later : Loading σ}
    (h : fill change now = .ok () later) : later.input = now.input := by
  cases h
  rfl

/-- Filling in a state does not fail only if all steps succeed. -/
theorem exists_ok_of_run {σ : Type} {load : Load σ Unit} {state : σ} {bytes : List UInt8}
    (h : (load.run state bytes).failure = none) :
    ∃ later, load ⟨.begin bytes, state⟩ = .ok () later := by
  simp only [Load.run] at h
  split at h
  case h_1 later hok => exact ⟨later, hok⟩
  case h_2 => cases h

/-- The end is found only where nothing is left. -/
theorem rest_of_expectEnd {σ : Type} {now later : Loading σ}
    (h : field expectEnd now = .ok () later) : now.input.rest = [] := by
  cases hrest : now.input.rest with
  | nil => rfl
  | cons byte rest =>
      simp [field, expectEnd, Bind.bind, EStateM.bind, MonadState.get, getThe, MonadStateOf.get,
        EStateM.get, Reader.remaining, hrest, throw, throwThe, MonadExceptOf.throw,
        EStateM.throw] at h

end ContextLexer.Snapshot
