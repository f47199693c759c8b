import TapeText.Proofs.Text.Lines
import TapeText.Text.Utf8

/-!
# TapeText.Proofs.Text.Utf8 — text and its bytes

Bytes are UTF-8 if they are the encodings of characters one after the other.
A character below U+0080 is one byte, and this byte is part of no other
character; so a line feed among the bytes is a line feed of the text.

* `isValidUTF8_iff`, `isValidUTF8_flatten` — UTF-8 as the bytes of a list of
  characters;
* `text?_flatMap`, `text?_of_invalid` — what reading bytes as text gives;
* `marks_of_lt` — the bytes below 0x80.
-/

namespace TapeText.Text.Utf8

variable {bytes : List UInt8}

/-- Bytes are UTF-8 if they are those of some characters. -/
theorem isValidUTF8_iff :
    bytes.toByteArray.IsValidUTF8 ↔ ∃ cs : List Char, bytes = cs.flatMap String.utf8EncodeChar := by
  constructor
  · rintro ⟨cs, h⟩
    exact ⟨cs, List.toByteArray_inj.1 h⟩
  · rintro ⟨cs, rfl⟩
    exact ⟨cs, rfl⟩

/-- Parts that are UTF-8 are UTF-8 when they are put together. -/
theorem isValidUTF8_flatten {parts : List (List UInt8)}
    (h : ∀ part ∈ parts, part.toByteArray.IsValidUTF8) :
    parts.flatten.toByteArray.IsValidUTF8 := by
  -- induction on the parts
  induction parts with
  | nil => exact ByteArray.isValidUTF8_empty
  | cons part parts ih =>
      rw [List.flatten_cons, List.toByteArray_append]
      apply ByteArray.IsValidUTF8.append
      · exact h part List.mem_cons_self
      · exact ih fun other hother => h other (List.mem_cons_of_mem _ hother)

/-! ## Reading and writing -/

theorem encode_ofList (cs : List Char) :
    encode (String.ofList cs) = cs.flatMap String.utf8EncodeChar := by
  rw [encode, String.toByteArray_ofList, List.utf8Encode, List.toList_data_toByteArray]

/-- The bytes of characters are read as these characters. -/
theorem text?_flatMap (cs : List Char) :
    text? (cs.flatMap String.utf8EncodeChar) = some (String.ofList cs) := by
  have hvalid : (cs.flatMap String.utf8EncodeChar).toByteArray.IsValidUTF8 := ⟨cs, rfl⟩
  rw [text?, String.fromUTF8?, dif_pos hvalid, Option.some.injEq, ← String.toByteArray_inj,
    String.toByteArray_ofList]
  rfl

theorem encode_eq (text : String) : encode text = text.toList.flatMap String.utf8EncodeChar := by
  rw [← encode_ofList, String.ofList_toList]

theorem text?_encode (text : String) : text? (encode text) = some text := by
  rw [encode_eq, text?_flatMap, String.ofList_toList]

theorem encode_inj {text other : String} : encode text = encode other ↔ text = other := by
  constructor
  · intro h
    have htext := text?_encode text
    rw [h, text?_encode, Option.some.injEq] at htext
    exact htext.symm
  · rintro rfl
    rfl

/-- The bytes of a text are UTF-8. -/
theorem isValidUTF8_encode (text : String) : (encode text).toByteArray.IsValidUTF8 :=
  isValidUTF8_iff.2 ⟨text.toList, encode_eq text⟩

theorem text?_of_invalid (h : ¬ bytes.toByteArray.IsValidUTF8) : text? bytes = none := by
  rw [text?, String.fromUTF8?, dif_neg h]

/-! ## Bytes below 0x80 -/

/-- Only a character of one byte has a byte below 0x80, and it is that byte. -/
theorem toNat_of_mem_utf8EncodeChar {c : Char} {b : UInt8} (hb : b ∈ String.utf8EncodeChar c)
    (hlt : b.toNat < 0x80) : b.toNat = c.toNat := by
  -- one case for each length of the encoding: in the longer ones every byte is 0x80 or more
  revert hb
  fun_cases String.utf8EncodeChar c with
  | case1 v h =>
      intro hb
      rw [List.mem_singleton.1 hb, UInt8.toNat_ofNat']
      exact Nat.mod_eq_of_lt (by omega)
  | _ =>
      intro hb
      simp only [List.mem_cons, List.not_mem_nil, or_false] at hb
      rcases hb with rfl | rfl | rfl | rfl <;> rw [UInt8.toNat_ofNat'] at hlt <;> omega

/-- So a byte below 0x80 marks its character. -/
theorem marks_of_lt {c : Char} (h : c.toNat < 0x80) :
    Marks String.utf8EncodeChar c (UInt8.ofNat c.toNat) := by
  have hbyte : (UInt8.ofNat c.toNat).toNat = c.toNat := by
    rw [UInt8.toNat_ofNat']
    omega
  constructor
  · exact if_pos (Nat.le_of_lt_succ h)
  · intro d hd hmem
    have hlt : (UInt8.ofNat c.toNat).toNat < 0x80 := by rw [hbyte]; exact h
    have hsame := toNat_of_mem_utf8EncodeChar hmem hlt
    rw [hbyte] at hsame
    exact hd (Char.toNat_inj.1 hsame.symm)

end TapeText.Text.Utf8
