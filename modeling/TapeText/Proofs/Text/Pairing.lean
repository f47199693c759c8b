import Mathlib.Logic.ExistsUnique
import TapeText.Proofs.Text.Decode

/-!
# TapeText.Proofs.Text.Pairing — units that are text

Not every list of units is a text: half a surrogate pair may stand alone. The
lists in which none does are exactly those that decode, each to one text, and
that text has them as its units.

* `Paired` — no half of a pair stands alone;
* `paired_unitsOfChars` — in the units of a text none does;
* `decodeChars?_eq_some_iff` — decoding and encoding are inverse to each other;
* `paired_iff_decode?` — the units that decode;
* `units_lossless` — the units of a line, and the lines of a list of units.
-/

namespace TapeText.Text

/-- The halves of surrogate pairs come only as pairs. -/
structure Paired (us : List UInt16) : Prop where
  /-- A first half is followed by a second one. -/
  low_next : ∀ front u back, us = front ++ u :: back → IsHigh u → ∃ v ∈ back.head?, IsLow v
  /-- A second half follows a first one. -/
  high_before : ∀ front v back, us = front ++ v :: back → IsLow v →
    ∃ u ∈ front.getLast?, IsHigh u

variable {u v : UInt16} {us front back : List UInt16} {cs : List Char}

/-! ## Pairs in a list put together -/

theorem Paired.append (hfront : Paired front) (hback : Paired back) : Paired (front ++ back) := by
  -- a half and its partner do not lie on different sides: each side is paired by itself
  constructor
  · intro before u behind hsplit hu
    rcases List.append_eq_append_iff.1 hsplit with ⟨more, -, hmore⟩ | ⟨more, hmore, hrest⟩
    · exact hback.low_next more u behind hmore hu
    · cases more with
      | nil => exact hback.low_next [] u behind hrest.symm hu
      | cons first more =>
          rw [List.cons_append] at hrest
          obtain ⟨rfl, rfl⟩ := List.cons.inj hrest
          rcases hfront.low_next before u more hmore hu with ⟨v, hv, hlow⟩
          refine ⟨v, ?_, hlow⟩
          rw [List.head?_append, Option.mem_def.1 hv]
          rfl
  · intro before v behind hsplit hv
    rcases List.append_eq_append_iff.1 hsplit with ⟨more, hbefore, hmore⟩ | ⟨more, hmore, hrest⟩
    · rcases hback.high_before more v behind hmore hv with ⟨u, hu, hhigh⟩
      refine ⟨u, ?_, hhigh⟩
      rw [hbefore, List.getLast?_append, Option.mem_def.1 hu]
      rfl
    · cases more with
      | nil =>
          rcases hback.high_before [] v behind hrest.symm hv with ⟨u, hu, -⟩
          simp at hu
      | cons first more =>
          rw [List.cons_append] at hrest
          obtain ⟨rfl, rfl⟩ := List.cons.inj hrest
          exact hfront.high_before before v more hmore hv

/-- What follows paired units is paired by itself. -/
theorem Paired.of_append (hfront : Paired front) (h : Paired (front ++ back)) : Paired back := by
  constructor
  · intro before u behind hsplit hu
    apply h.low_next (front ++ before) u behind _ hu
    rw [hsplit, List.append_assoc]
  · intro before v behind hsplit hv
    have hwhole : front ++ back = (front ++ before) ++ v :: behind := by
      rw [hsplit, List.append_assoc]
    rcases h.high_before (front ++ before) v behind hwhole hv with ⟨u, hu, hhigh⟩
    refine ⟨u, ?_, hhigh⟩
    cases before with
    | cons first more => simpa [List.getLast?_append] using hu
    | nil =>
        -- the first half would be the last of the units in front
        rw [List.append_nil] at hu
        obtain ⟨more, rfl⟩ := List.getLast?_eq_some_iff.1 hu
        rcases hfront.low_next more u [] rfl hhigh with ⟨w, hw, -⟩
        simp at hw

/-- Units of which none is a half are paired. -/
theorem paired_of_forall (h : ∀ u ∈ us, ¬ IsHigh u ∧ ¬ IsLow u) : Paired us := by
  constructor
  · intro before u behind hsplit hu
    have hmem : u ∈ us := by simp [hsplit]
    exact absurd hu (h u hmem).1
  · intro before v behind hsplit hv
    have hmem : v ∈ us := by simp [hsplit]
    exact absurd hv (h v hmem).2

theorem paired_single (hu : ¬ IsHigh u ∧ ¬ IsLow u) : Paired [u] := by
  apply paired_of_forall
  intro w hw
  obtain rfl := List.mem_singleton.1 hw
  exact hu

/-- No unit is both a first half and a second one. -/
theorem IsHigh.not_isLow (h : IsHigh u) : ¬ IsLow u := by
  intro hlow
  unfold IsHigh at h
  unfold IsLow at hlow
  omega

/-- Two halves that belong together are paired. -/
theorem paired_pair (hu : IsHigh u) (hv : IsLow v) : Paired [u, v] := by
  constructor
  · intro before w behind hsplit hw
    rcases List.cons_eq_append_iff.1 hsplit with ⟨-, hhere⟩ | ⟨more, -, hmore⟩
    · obtain ⟨rfl, rfl⟩ := List.cons.inj hhere
      exact ⟨v, rfl, hv⟩
    · have hmem : w ∈ [v] := by simp [hmore]
      obtain rfl := List.mem_singleton.1 hmem
      exact absurd hv hw.not_isLow
  · intro before w behind hsplit hw
    rcases List.cons_eq_append_iff.1 hsplit with ⟨-, hhere⟩ | ⟨more, hbefore, hmore⟩
    · obtain ⟨rfl, -⟩ := List.cons.inj hhere
      exact absurd hw hu.not_isLow
    · have hlast : more = [] := by
        cases more with
        | nil => rfl
        | cons first more => simp at hmore
      rw [hbefore, hlast]
      exact ⟨u, rfl, hu⟩

/-! ## The units of a text -/

/-- The units of a character are paired: they are one that is no half, or two halves
that belong together. -/
theorem paired_unitsOfChar (c : Char) : Paired (unitsOfChar c) := by
  rcases unitsOfChar_cases c with ⟨u, hunits, -, hhalf, -⟩ | ⟨u, v, hunits, -, hhigh, hlow, -⟩
  · rw [hunits]
    exact paired_single hhalf
  · rw [hunits]
    exact paired_pair hhigh hlow

/-- In the units of a text no half stands alone. -/
theorem paired_unitsOfChars (cs : List Char) : Paired (unitsOfChars cs) := by
  -- induction on the characters
  induction cs with
  | nil => exact paired_of_forall (by simp)
  | cons c cs ih => exact (paired_unitsOfChar c).append ih

/-- A character from U+10000 on has one unit more. -/
theorem length_unitsOfChars (cs : List Char) :
    (unitsOfChars cs).length = cs.countP (fun c => c.toNat < 0x10000) +
      2 * cs.countP (fun c => 0x10000 ≤ c.toNat) := by
  -- induction on the characters, each of which counts on one side only
  induction cs with
  | nil => rfl
  | cons c cs ih =>
      rw [unitsOfChars_cons, List.length_append, ih, List.countP_cons, List.countP_cons]
      rcases unitsOfChar_cases c with ⟨u, hunits, hbelow, -⟩ | ⟨u, v, hunits, habove, -⟩
      · have hnot : ¬ 0x10000 ≤ c.toNat := Nat.not_le_of_lt hbelow
        simp only [hunits, hbelow, hnot, decide_true, decide_false, List.length_singleton]
        simp only [if_true, Bool.false_eq_true, if_false]
        omega
      · have hnot : ¬ c.toNat < 0x10000 := Nat.not_lt_of_le habove
        simp only [hunits, habove, hnot, decide_true, decide_false, List.length_cons,
          List.length_nil]
        simp only [if_true, Bool.false_eq_true, if_false]
        omega

/-! ## Texts back to units -/

theorem toNat_ofNat {n : Nat} (h : n.isValidChar) : (Char.ofNat n).toNat = n := by
  rw [Char.ofNat, dif_pos h]
  rfl

theorem toUInt16_toNat (u : UInt16) : u.toNat.toUInt16 = u := UInt16.ofNat_toNat

/-- The unit that a character is read from is its only one. -/
theorem unitsOfChar_ofNat (hu : ¬ IsHigh u ∧ ¬ IsLow u) :
    unitsOfChar (Char.ofNat u.toNat) = [u] := by
  have hlt := u.toNat_lt
  have hvalid : u.toNat.isValidChar := by
    unfold IsHigh IsLow at hu
    unfold Nat.isValidChar
    omega
  unfold unitsOfChar
  rw [toNat_ofNat hvalid, if_pos (by omega), toUInt16_toNat]

/-- The two halves that a character is read from are its units. -/
theorem unitsOfChar_joinHalves (hu : IsHigh u) (hv : IsLow v) :
    unitsOfChar (joinHalves u v) = [u, v] := by
  unfold IsHigh at hu
  unfold IsLow at hv
  have hvalid : (0x10000 + (u.toNat - 0xD800) * 0x400 + (v.toNat - 0xDC00)).isValidChar := by
    unfold Nat.isValidChar
    omega
  have hhigh : 0xD800 + (0x10000 + (u.toNat - 0xD800) * 0x400 + (v.toNat - 0xDC00) - 0x10000) /
      0x400 = u.toNat := by omega
  have hlow : 0xDC00 + (0x10000 + (u.toNat - 0xD800) * 0x400 + (v.toNat - 0xDC00) - 0x10000) %
      0x400 = v.toNat := by omega
  unfold unitsOfChar joinHalves
  rw [toNat_ofNat hvalid, if_neg (by omega)]
  dsimp only
  rw [hhigh, hlow, toUInt16_toNat, toUInt16_toNat]

/-- What units decode to has these units. -/
theorem unitsOfChars_of_decodeChars? (h : decodeChars? us = some cs) : unitsOfChars cs = us := by
  -- one case for each branch of the decoding; two of them read a character
  fun_induction decodeChars? us generalizing cs with
  | case1 =>
      obtain rfl := Option.some.inj h
      rfl
  | case2 => simp at h
  | case3 u hu v rest hv ih =>
      rcases Option.map_eq_some_iff.1 h with ⟨more, hmore, rfl⟩
      rw [unitsOfChars_cons, unitsOfChar_joinHalves hu hv, ih hmore]
      rfl
  | case4 => simp at h
  | case5 => simp at h
  | case6 u rest hu hv ih =>
      rcases Option.map_eq_some_iff.1 h with ⟨more, hmore, rfl⟩
      rw [unitsOfChars_cons, unitsOfChar_ofNat ⟨hu, hv⟩, ih hmore]
      rfl

/-- Decoding and encoding are inverse to each other. -/
theorem decodeChars?_eq_some_iff : decodeChars? us = some cs ↔ unitsOfChars cs = us := by
  constructor
  · exact unitsOfChars_of_decodeChars?
  · rintro rfl
    have hdecode := decodeChars?_unitsOfChars_append cs []
    rw [List.append_nil] at hdecode
    rw [hdecode]
    show some (cs ++ []) = some cs
    rw [List.append_nil]

/-! ## What decodes -/

/-- Paired units can be read to the end. -/
theorem Paired.exists_decode (h : Paired us) : ∃ cs, decodeChars? us = some cs := by
  fun_induction decodeChars? us with
  | case1 => exact ⟨[], rfl⟩
  | case2 u hu =>
      -- nothing follows the first half
      rcases h.low_next [] u [] rfl hu with ⟨v, hv, -⟩
      simp at hv
  | case3 u hu v rest hv ih =>
      rcases ih ((paired_pair hu hv).of_append h) with ⟨cs, hcs⟩
      exact ⟨joinHalves u v :: cs, by rw [hcs]; rfl⟩
  | case4 u hu v rest hv =>
      -- what follows the first half is not a second one
      rcases h.low_next [] u (v :: rest) rfl hu with ⟨w, hw, hlow⟩
      obtain rfl := Option.some.inj hw
      exact absurd hlow hv
  | case5 u rest hu hv =>
      -- no first half precedes the second one
      rcases h.high_before [] u rest rfl hv with ⟨w, hw, -⟩
      simp at hw
  | case6 u rest hu hv ih =>
      rcases ih ((paired_single ⟨hu, hv⟩).of_append h) with ⟨cs, hcs⟩
      exact ⟨Char.ofNat u.toNat :: cs, by rw [hcs]; rfl⟩

theorem dropLast_units (text : String) : (units text).dropLast = unitsOfChars text.toList :=
  List.dropLast_concat

/-- A text is decoded from its own units and from no others. -/
theorem decode?_eq_some_iff {text : String} :
    decode? us = some text ↔ (units text).dropLast = us := by
  unfold decode?
  rw [Option.map_eq_some_iff, dropLast_units]
  constructor
  · rintro ⟨cs, hcs, rfl⟩
    rw [String.toList_ofList]
    exact decodeChars?_eq_some_iff.1 hcs
  · intro h
    exact ⟨text.toList, decodeChars?_eq_some_iff.2 h, String.ofList_toList⟩

/-- The units that decode are those without half a pair that stands alone. -/
theorem paired_iff_decode? : Paired us ↔ ∃ text, decode? us = some text := by
  constructor
  · intro h
    rcases h.exists_decode with ⟨cs, hcs⟩
    exact ⟨String.ofList cs, by rw [decode?, hcs]; rfl⟩
  · rintro ⟨text, htext⟩
    -- what decodes are the units of a text
    rw [← decode?_eq_some_iff.1 htext, dropLast_units]
    exact paired_unitsOfChars text.toList

/-- The units of a line end with the line feed, there are one or two of them for each
character, no half of a pair stands alone in them, and they decode to the line. The
other way round, units without a half that stands alone are those of one line, and no
other units decode. -/
theorem units_lossless :
    (∀ text : String, (units text).getLast? = some 10 ∧
      (units text).length = text.toList.countP (fun c => c.toNat < 0x10000) +
        2 * text.toList.countP (fun c => 0x10000 ≤ c.toNat) + 1 ∧
      Paired (units text) ∧ decode? (units text).dropLast = some text) ∧
    ∀ us : List UInt16, (Paired us ↔ ∃! text, (units text).dropLast = us) ∧
      (Paired us ↔ ∃ text, decode? us = some text) := by
  refine ⟨?_, ?_⟩
  · intro text
    refine ⟨List.getLast?_concat, ?_, ?_, decode?_eq_some_iff.2 rfl⟩
    · rw [← length_unitsOfChars]
      exact List.length_append
    · exact (paired_unitsOfChars text.toList).append (paired_single (by decide))
  · intro us
    refine ⟨?_, paired_iff_decode?⟩
    rw [paired_iff_decode?]
    constructor
    · rintro ⟨text, htext⟩
      refine ⟨text, decode?_eq_some_iff.1 htext, ?_⟩
      -- another line with these units is what they decode to
      intro other hother
      have hsame := (decode?_eq_some_iff.2 hother).symm.trans htext
      exact Option.some.inj hsame
    · rintro ⟨text, htext, -⟩
      exact ⟨text, decode?_eq_some_iff.2 htext⟩

-- The last character with one unit, and the first and the last one with two.
example : unitsOfChars [Char.ofNat 0xFFFF, Char.ofNat 0x10000, Char.ofNat 0x10FFFF] =
    [0xFFFF, 0xD800, 0xDC00, 0xDBFF, 0xDFFF] := by decide

end TapeText.Text
