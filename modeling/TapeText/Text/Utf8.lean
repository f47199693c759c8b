/-!
# TapeText.Text.Utf8 — bytes as text

Bytes that need not be UTF-8 are shown with the replacement character in place
of each malformed part. A malformed part is as long as it can be without
being more than the beginning of one character; a byte that begins no
character is a part of its own.
-/

namespace TapeText.Text.Utf8

/-- The character shown for a malformed part. -/
def replacement : Char := '\uFFFD'

/-- The bytes that may follow a first byte, as a range for each, together with
what the first byte contributes to the code point. -/
def continuation? (lead : UInt8) : Option (Nat × List (UInt8 × UInt8)) :=
  let any : UInt8 × UInt8 := (0x80, 0xBF)
  if lead < 0x80 then some (lead.toNat, [])
  else if lead < 0xC2 then none
  else if lead < 0xE0 then some (lead.toNat - 0xC0, [any])
  else if lead = 0xE0 then some (0, [(0xA0, 0xBF), any])
  else if lead = 0xED then some (0xD, [(0x80, 0x9F), any])
  else if lead < 0xF0 then some (lead.toNat - 0xE0, [any, any])
  else if lead = 0xF0 then some (0, [(0x90, 0xBF), any, any])
  else if lead < 0xF4 then some (lead.toNat - 0xF0, [any, any, any])
  else if lead = 0xF4 then some (4, [(0x80, 0x8F), any, any])
  else none

/-- Read the bytes that complete a character, and return what follows. If one
of them is missing the character is malformed and ends before it. -/
def complete (value : Nat) : List (UInt8 × UInt8) → List UInt8 → Option Char × List UInt8
  | [], bytes => (some (Char.ofNat value), bytes)
  | _ :: _, [] => (none, [])
  | (low, high) :: ranges, b :: bytes =>
    if low ≤ b ∧ b ≤ high then complete (value * 64 + (b.toNat - 0x80)) ranges bytes
    else (none, b :: bytes)

/-- The character that begins with `lead`, if it is well formed, and what
follows it or the malformed part. -/
def next (lead : UInt8) (bytes : List UInt8) : Option Char × List UInt8 :=
  match continuation? lead with
  | some (value, ranges) => complete value ranges bytes
  | none => (none, bytes)

/-- Completing a character adds no bytes. -/
theorem length_complete_le (value : Nat) (ranges : List (UInt8 × UInt8)) (bytes : List UInt8) :
    (complete value ranges bytes).2.length ≤ bytes.length := by
  fun_induction complete value ranges bytes with
  | case1 => exact Nat.le_refl _
  | case2 => exact Nat.le_refl _
  | case3 value low high ranges b bytes h ih => exact Nat.le_succ_of_le ih
  | case4 => exact Nat.le_refl _

/-- What follows a first byte is no longer than what was behind it. -/
theorem length_next_le (lead : UInt8) (bytes : List UInt8) :
    (next lead bytes).2.length ≤ bytes.length := by
  rw [next]
  split
  · exact length_complete_le _ _ _
  · exact Nat.le_refl _

/-- The characters of a sequence of bytes, with a replacement character for
each malformed part. -/
def decodeLossy : List UInt8 → List Char
  | [] => []
  | lead :: bytes => (next lead bytes).1.getD replacement :: decodeLossy (next lead bytes).2
termination_by bytes => bytes.length
decreasing_by exact Nat.lt_succ_of_le (length_next_le lead bytes)

/-- The characters before the first malformed part, and the bytes from there
on. -/
def decodeWhileValid : List UInt8 → List Char × List UInt8
  | [] => ([], [])
  | lead :: bytes =>
    match (next lead bytes).1 with
    | some c =>
      let (cs, rest) := decodeWhileValid (next lead bytes).2
      (c :: cs, rest)
    | none => ([], lead :: bytes)
termination_by bytes => bytes.length
decreasing_by exact Nat.lt_succ_of_le (length_next_le lead bytes)

/-- The text that shows a sequence of bytes. -/
def display (bytes : List UInt8) : String := String.ofList (decodeLossy bytes)

/-- The text whose encoding the bytes are, if they are UTF-8. -/
def text? (bytes : List UInt8) : Option String := String.fromUTF8? bytes.toByteArray

def encode (text : String) : List UInt8 := text.toByteArray.data.toList

end TapeText.Text.Utf8
