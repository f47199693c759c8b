import TapeText.Text.Units

/-!
# TapeText.Proofs.Text.Decode — text back from its units

Units are read strictly: the first half of a surrogate pair must be followed
by a second half, and a second half must follow a first one.

* `decode?` — the text of a list of units;
* `decode?_units` — the units of a line decode to the line.
-/

namespace TapeText.Text

/-- The first half of a surrogate pair. -/
def IsHigh (u : UInt16) : Prop := 0xD800 ≤ u.toNat ∧ u.toNat < 0xDC00

/-- The second half of a surrogate pair. -/
def IsLow (u : UInt16) : Prop := 0xDC00 ≤ u.toNat ∧ u.toNat < 0xE000

instance (u : UInt16) : Decidable (IsHigh u) := inferInstanceAs (Decidable (_ ∧ _))

instance (u : UInt16) : Decidable (IsLow u) := inferInstanceAs (Decidable (_ ∧ _))

/-- The character of a surrogate pair. -/
def joinHalves (high low : UInt16) : Char :=
  Char.ofNat (0x10000 + (high.toNat - 0xD800) * 0x400 + (low.toNat - 0xDC00))

/-- The characters of a list of units; none if half a pair stands alone. -/
def decodeChars? : List UInt16 → Option (List Char)
  | [] => some []
  | u :: rest =>
    if IsHigh u then
      match rest with
      | [] => none
      | v :: rest => if IsLow v then (decodeChars? rest).map (joinHalves u v :: ·) else none
    else if IsLow u then none
    else (decodeChars? rest).map (Char.ofNat u.toNat :: ·)

def decode? (us : List UInt16) : Option String := (decodeChars? us).map String.ofList

variable {u v : UInt16} {c : Char}

/-- Two halves that belong together are one character. -/
theorem decodeChars?_pair (hu : IsHigh u) (hv : IsLow v) (rest : List UInt16) :
    decodeChars? (u :: v :: rest) = (decodeChars? rest).map (joinHalves u v :: ·) := by
  rw [decodeChars?, if_pos hu]
  exact if_pos hv

theorem decodeChars?_single (hu : ¬ IsHigh u ∧ ¬ IsLow u) (rest : List UInt16) :
    decodeChars? (u :: rest) = (decodeChars? rest).map (Char.ofNat u.toNat :: ·) := by
  rw [decodeChars?.eq_def]
  dsimp only
  rw [if_neg hu.1, if_neg hu.2]

/-! ## The units of a character -/

/-- Characters lie outside the range of the halves, and below U+110000. -/
theorem toNat_cases (c : Char) : c.toNat < 0xD800 ∨ (0xE000 ≤ c.toNat ∧ c.toNat < 0x110000) := by
  rcases c.valid with h | h
  · exact .inl h
  · exact .inr ⟨h.1, h.2⟩

theorem toNat_toUInt16 {n : Nat} (h : n < 0x10000) : n.toUInt16.toNat = n :=
  UInt16.toNat_ofNat_of_lt' h

/-- The halves of a character are joined to that character. -/
theorem joinHalves_split (h : 0x10000 ≤ c.toNat) :
    joinHalves (0xD800 + (c.toNat - 0x10000) / 0x400).toUInt16
      (0xDC00 + (c.toNat - 0x10000) % 0x400).toUInt16 = c := by
  have hvalid := toNat_cases c
  unfold joinHalves
  rw [toNat_toUInt16 (by omega), toNat_toUInt16 (by omega)]
  -- quotient and remainder make up the number above 0x10000
  have hsum : 0x10000 + (0xD800 + (c.toNat - 0x10000) / 0x400 - 0xD800) * 0x400 +
      (0xDC00 + (c.toNat - 0x10000) % 0x400 - 0xDC00) = c.toNat := by omega
  rw [hsum, Char.ofNat_toNat]

/-- A character has one unit that is no half of a pair, or the two halves of
one. -/
theorem unitsOfChar_cases (c : Char) :
    (∃ u, unitsOfChar c = [u] ∧ c.toNat < 0x10000 ∧ (¬ IsHigh u ∧ ¬ IsLow u) ∧
      Char.ofNat u.toNat = c) ∨
    ∃ u v, unitsOfChar c = [u, v] ∧ 0x10000 ≤ c.toNat ∧ IsHigh u ∧ IsLow v ∧
      joinHalves u v = c := by
  have hvalid := toNat_cases c
  unfold unitsOfChar
  -- below U+10000 no character lies in the range of the halves
  by_cases h : c.toNat < 0x10000
  · have hunit := toNat_toUInt16 h
    have hhalf : ¬ IsHigh c.toNat.toUInt16 ∧ ¬ IsLow c.toNat.toUInt16 := by
      unfold IsHigh IsLow
      rw [hunit]
      omega
    rw [if_pos h]
    exact .inl ⟨_, rfl, h, hhalf, by rw [hunit, Char.ofNat_toNat]⟩
  · have hhigh : IsHigh (0xD800 + (c.toNat - 0x10000) / 0x400).toUInt16 := by
      unfold IsHigh
      rw [toNat_toUInt16 (by omega)]
      omega
    have hlow : IsLow (0xDC00 + (c.toNat - 0x10000) % 0x400).toUInt16 := by
      unfold IsLow
      rw [toNat_toUInt16 (by omega)]
      omega
    have habove := Nat.le_of_not_lt h
    rw [if_neg h]
    exact .inr ⟨_, _, rfl, habove, hhigh, hlow, joinHalves_split habove⟩

/-- The units of a character in front decode to the character in front. -/
theorem decodeChars?_unitsOfChar_append (c : Char) (rest : List UInt16) :
    decodeChars? (unitsOfChar c ++ rest) = (decodeChars? rest).map (c :: ·) := by
  rcases unitsOfChar_cases c with ⟨u, hunits, -, hhalf, hc⟩ | ⟨u, v, hunits, -, hhigh, hlow, hc⟩
  · rw [hunits, List.singleton_append, decodeChars?_single hhalf, hc]
  · rw [hunits, List.cons_append, List.singleton_append, decodeChars?_pair hhigh hlow, hc]

/-- The units of a text in front decode to the text in front. -/
theorem decodeChars?_unitsOfChars_append (cs : List Char) (rest : List UInt16) :
    decodeChars? (unitsOfChars cs ++ rest) = (decodeChars? rest).map (cs ++ ·) := by
  -- induction on the characters, each of which is read off the front
  induction cs with
  | nil =>
      rw [unitsOfChars_nil, List.nil_append]
      exact Option.map_id'.symm
  | cons c cs ih =>
      rw [unitsOfChars_cons, List.append_assoc, decodeChars?_unitsOfChar_append, ih,
        Option.map_map]
      rfl

/-- The units of a line decode to the line and its line feed. -/
theorem decode?_units (text : String) : decode? (units text) = some (text ++ "\n") := by
  -- the terminator is read as a line feed
  have hend : decodeChars? [terminator] = some ['\n'] := by decide
  unfold decode? units
  rw [decodeChars?_unitsOfChars_append, hend]
  show some (String.ofList (text.toList ++ ['\n'])) = _
  rw [String.ofList_append, String.ofList_toList]

end TapeText.Text
