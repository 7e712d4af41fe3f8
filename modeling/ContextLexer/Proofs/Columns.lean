/-
# Columns

The column of a place counts the characters behind the last line feed. A host can have it
in two other ways. It can keep a number along the text, which every character raises by one
and every line feed puts back to zero. And it can look at the bytes in front of the place
alone: the line begins behind the last byte of a line feed, since a line feed has this byte
to itself, and the bytes from there on are again those of a text. All three agree at every
place, however many bytes its characters take.
-/

import ContextLexer.Proofs.Onward
import Mathlib.Data.List.DropRight

namespace ContextLexer

/-! ## Lines of bytes -/

namespace Utf8

/-- The byte of a line feed. -/
def lineFeed : UInt8 := 10

/-- The bytes behind the last byte of a line feed, which is looked for from the end. -/
def lastLine (bytes : List UInt8) : List UInt8 := bytes.rtakeWhile (· ≠ lineFeed)

/-- The number of characters behind the last byte of a line feed, if they are a text. -/
def columnAt? (bytes : List UInt8) : Option Nat := (decode? (lastLine bytes)).map List.length

theorem encodeChar_lineFeed : String.utf8EncodeChar '\n' = [lineFeed] := by decide

/-- All bytes of a character that is not ASCII have the eighth bit. -/
theorem high_of_mem_encodeChar {c : Char} (hc : 127 < c.val.toNat) :
    ∀ byte ∈ String.utf8EncodeChar c, 128 ≤ byte.toNat := by
  have high (n : Nat) (hn : 128 ≤ n % 256) : 128 ≤ (UInt8.ofNat n).toNat := by
    rw [UInt8.toNat_ofNat']
    exact hn
  simp only [String.utf8EncodeChar]
  rw [if_neg (Nat.not_le.mpr hc)]
  split
  · simp only [List.forall_mem_cons]
    exact ⟨high _ (by omega), high _ (by omega), List.forall_mem_nil _⟩
  split
  · simp only [List.forall_mem_cons]
    exact ⟨high _ (by omega), high _ (by omega), high _ (by omega), List.forall_mem_nil _⟩
  · simp only [List.forall_mem_cons]
    exact ⟨high _ (by omega), high _ (by omega), high _ (by omega), high _ (by omega),
      List.forall_mem_nil _⟩

/-- No other character has the byte of a line feed in its UTF-8 form. -/
theorem ne_lineFeed_of_mem {c : Char} (hc : c ≠ '\n') :
    ∀ byte ∈ String.utf8EncodeChar c, byte ≠ lineFeed := by
  rintro byte hbyte rfl
  rcases Nat.lt_or_ge 127 c.val.toNat with hhigh | hascii
  · exact absurd (high_of_mem_encodeChar hhigh _ hbyte) (by decide)
  · simp only [String.utf8EncodeChar] at hbyte
    rw [if_pos hascii, List.mem_singleton] at hbyte
    apply hc
    apply Char.ext
    apply UInt32.toNat_inj.mp
    have hvalue := congrArg UInt8.toNat hbyte
    rw [UInt8.toNat_ofNat', Nat.mod_eq_of_lt (by omega)] at hvalue
    exact hvalue.symm

/-- Bytes that are none of a line feed only lengthen the last line. -/
theorem lastLine_append {bytes more : List UInt8} (h : ∀ byte ∈ more, byte ≠ lineFeed) :
    lastLine (bytes ++ more) = lastLine bytes ++ more := by
  induction more using List.reverseRecOn with
  | nil => rw [List.append_nil, List.append_nil]
  | append_singleton more byte ih =>
      have hbyte : byte ≠ lineFeed := h byte (by simp)
      have hmore : ∀ other ∈ more, other ≠ lineFeed := fun other hother =>
        h other (List.mem_append_left _ hother)
      rw [← List.append_assoc, lastLine, List.rtakeWhile_concat_pos _ _ _ (by simpa using hbyte),
        ← lastLine, ih hmore, List.append_assoc]

/-- The last line of the bytes of a text is the last line of the text. -/
theorem lastLine_encode (text : List Char) :
    lastLine (encode text) = encode (text.rtakeWhile (· ≠ '\n')) := by
  have hsingle (c : Char) : encode [c] = String.utf8EncodeChar c := by
    simp [encode]
  induction text using List.reverseRecOn with
  | nil => rfl
  | append_singleton text c ih =>
      rw [encode_append, hsingle]
      by_cases hc : c = '\n'
      · subst hc
        rw [encodeChar_lineFeed, lastLine, List.rtakeWhile_concat_neg _ _ _ (by simp),
          List.rtakeWhile_concat_neg _ _ _ (by simp), encode_nil]
      · rw [lastLine_append (ne_lineFeed_of_mem hc), ih,
          List.rtakeWhile_concat_pos _ _ _ (by simpa using hc), encode_append, hsingle]

theorem columnAt?_encode (text : List Char) :
    columnAt? (encode text) = some (text.rtakeWhile (· ≠ '\n')).length := by
  rw [columnAt?, lastLine_encode, decode?_encode, Option.map_some]

end Utf8

/-! ## Columns along a text -/

namespace Place

/-- The column behind one more character. -/
def columnStep (column : Nat) (x : Char) : Nat := if x = '\n' then 0 else column + 1

/-- The column behind a text, kept up from its beginning. -/
def columnAlong (text : List Char) : Nat := text.foldl columnStep 0

theorem columnAlong_concat (text : List Char) (x : Char) :
    columnAlong (text ++ [x]) = columnStep (columnAlong text) x := by
  rw [columnAlong, columnAlong, List.foldl_append, List.foldl_cons, List.foldl_nil]

/-- What is kept up along a text is the length of its last line. -/
theorem columnAlong_eq_length (text : List Char) :
    columnAlong text = (text.rtakeWhile (· ≠ '\n')).length := by
  induction text using List.reverseRecOn with
  | nil => rfl
  | append_singleton text x ih =>
      rw [columnAlong_concat, columnStep]
      split
      · next hx => rw [List.rtakeWhile_concat_neg _ _ _ (by simpa using hx), List.length_nil]
      · next hx =>
        rw [List.rtakeWhile_concat_pos _ _ _ (by simpa using hx), List.length_append, ih,
          List.length_singleton]

theorem column_eq_columnAlong (p : Place) : p.column = columnAlong p.passed.reverse := by
  rw [columnAlong_eq_length, List.rtakeWhile_reverse, List.length_reverse, column]

/-- A step over a character that is there is a step of the column. -/
theorem column_next {p : Place} {x : Char} {ahead : List Char} (h : p.ahead = x :: ahead) :
    p.next.column = columnStep p.column x := by
  rw [column_eq_columnAlong, column_eq_columnAlong, ← columnAlong_concat, ← List.reverse_cons,
    next, h]

/-- The bytes in front of a place are those of the text in front of it. -/
theorem take_encode_text (p : Place) :
    (Utf8.encode p.text).take p.offset = Utf8.encode p.passed.reverse := by
  have hsize : p.offset = (Utf8.encode p.passed.reverse).length := by
    rw [Utf8.length_encode, Utf8.size_reverse, offset]
  rw [text, Utf8.encode_append, hsize, List.take_left]

/-- At every offset of a text at which a character begins or the text ends, the column is the
number kept up along the text in front of it, and the number of characters behind the last
byte of a line feed in front of it. A character other than a line feed raises the column by
one, and a line feed makes it zero, by however many bytes the offset grows. -/
theorem column_counts_line {text : List Char} {offset : Nat} {p : Place}
    (h : atOffset? text offset = some p) :
    ∃ before, text = before ++ p.ahead ∧ Utf8.size before = offset ∧
      p.column = columnAlong before ∧
      Utf8.columnAt? ((Utf8.encode text).take offset) = some p.column ∧
      ∀ (c later : Cursor) (x : Char) (ahead : List Char), c.place = p → p.ahead = x :: ahead →
        later = c.consume ∨ later = c.ignore →
        later.place.offset = offset + x.utf8Size ∧
          (x = '\n' → later.column = 0) ∧ (x ≠ '\n' → later.column = c.column + 1) := by
  obtain rfl := text_of_atOffset? h
  obtain rfl := offset_of_atOffset? h
  refine ⟨p.passed.reverse, rfl, Utf8.size_reverse _, p.column_eq_columnAlong, ?_, ?_⟩
  · rw [take_encode_text, Utf8.columnAt?_encode, column_eq_columnAlong, columnAlong_eq_length]
  · rintro c later x ahead rfl hahead hlater
    have hplace : later.place = c.place.next := by
      rcases hlater with rfl | rfl
      · rfl
      · rw [Cursor.ignore, if_neg (by simp [Cursor.atEnd, atEnd, hahead])]
    have hcolumn : later.column = columnStep c.column x := by
      rw [Cursor.column, hplace]
      exact column_next hahead
    refine ⟨?_, ?_, ?_⟩
    · rw [hplace, (Leads.next hahead).offset_eq, Utf8.size_cons, Utf8.size_nil, Nat.add_zero]
    · intro hx
      rw [hcolumn, columnStep, if_pos hx]
    · intro hx
      rw [hcolumn, columnStep, if_neg hx]

/-- Characters of two and of four bytes count once each. -/
theorem column_counts_line_wide :
    atOffset? ['é', '\n', '😀', 'b'] 7 = some ⟨['😀', '\n', 'é'], ['b']⟩ ∧
      Utf8.columnAt? ((Utf8.encode ['é', '\n', '😀', 'b']).take 7) = some 1 ∧
      (Cursor.begin ⟨['😀', '\n', 'é'], ['b']⟩).consume.column = 2 := by
  have hplace : atOffset? ['é', '\n', '😀', 'b'] 7 = some ⟨['😀', '\n', 'é'], ['b']⟩ := by
    decide
  obtain ⟨before, -, -, -, hbytes, hmoves⟩ := column_counts_line hplace
  have hconsume := hmoves (.begin ⟨['😀', '\n', 'é'], ['b']⟩) _ 'b' [] rfl rfl (.inl rfl)
  exact ⟨hplace, hbytes, hconsume.2.2 (by decide)⟩

end Place

end ContextLexer
