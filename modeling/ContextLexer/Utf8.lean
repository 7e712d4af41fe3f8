/-
# Texts as bytes

A text is a list of characters; offsets count the bytes of its UTF-8 form, and
snapshots store texts in that form. Decoding accepts exactly what encoding
produces, so the bytes of a text determine it and are determined by it.
-/

namespace ContextLexer.Utf8

/-- The UTF-8 form of a text. -/
def encode (text : List Char) : List UInt8 := text.flatMap String.utf8EncodeChar

/-- The text with the given UTF-8 form, if there is one. -/
def decode? (bytes : List UInt8) : Option (List Char) :=
  (String.fromUTF8? bytes.toByteArray).map String.toList

/-- The number of bytes in the UTF-8 form of a text. -/
def size (text : List Char) : Nat := text.foldl (fun n c => n + c.utf8Size) 0

@[simp] theorem encode_nil : encode [] = [] := rfl

@[simp] theorem encode_append (first second : List Char) :
    encode (first ++ second) = encode first ++ encode second := by
  simp [encode]

theorem foldl_utf8Size (text : List Char) (n : Nat) :
    text.foldl (fun n c => n + c.utf8Size) n = n + size text := by
  induction text generalizing n with
  | nil => rfl
  | cons c text ih =>
    rw [size, List.foldl_cons, ih, List.foldl_cons, ih (0 + c.utf8Size)]
    omega

@[simp] theorem size_nil : size [] = 0 := rfl

@[simp] theorem size_cons (c : Char) (text : List Char) :
    size (c :: text) = c.utf8Size + size text := by
  rw [size, List.foldl_cons, foldl_utf8Size, Nat.zero_add]

@[simp] theorem size_append (first second : List Char) :
    size (first ++ second) = size first + size second := by
  induction first with
  | nil => simp
  | cons c first ih =>
    rw [List.cons_append, size_cons, size_cons, ih]
    omega

@[simp] theorem size_reverse (text : List Char) : size text.reverse = size text := by
  induction text with
  | nil => rfl
  | cons c text ih =>
    rw [List.reverse_cons, size_append, size_cons, size_cons, size_nil, ih]
    omega

theorem length_encode (text : List Char) : (encode text).length = size text := by
  induction text with
  | nil => rfl
  | cons c text ih =>
    rw [size_cons, ← ih, encode, List.flatMap_cons, List.length_append,
      String.length_utf8EncodeChar]
    rfl

/-- Decoding accepts exactly what encoding produces. -/
theorem decode?_eq_some_iff {bytes : List UInt8} {text : List Char} :
    decode? bytes = some text ↔ bytes = encode text := by
  simp only [decode?, String.fromUTF8?, Option.map_eq_some_iff]
  constructor
  · rintro ⟨s, hs, rfl⟩
    split at hs
    · next valid =>
      cases hs
      have h := String.utf8Encode_toList (b := String.fromUTF8 bytes.toByteArray valid)
      exact List.toByteArray_inj.mp h.symm
    · cases hs
  · rintro rfl
    have valid : (encode text).toByteArray.IsValidUTF8 := ⟨text, rfl⟩
    refine ⟨String.ofList text, ?_, String.toList_ofList⟩
    rw [dif_pos valid, Option.some.injEq, ← String.toByteArray_inj,
      String.toByteArray_ofList]
    rfl

theorem decode?_encode (text : List Char) : decode? (encode text) = some text :=
  decode?_eq_some_iff.mpr rfl

end ContextLexer.Utf8
