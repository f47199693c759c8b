import TapeText.Proofs.Code.Repetition

/-!
# TapeText.Proofs.Code.Gaps — what a pass keeps, and where the passes end

The characters that do not move the pointer divide a program into gaps, and in each
gap the moves add up to a distance. A pass keeps the characters and the distances.
A gap without a pair goes one way only, so where the passes end each gap is as short
as its distance allows.

* `fixedPart`, `gaps`, `net`, `straight` — the characters between the gaps, the gaps,
  how far the moves of one gap go, and the shortest moves that go as far;
* `fixedPart_dropPairs`, `nets_dropPairs` — what one pass keeps;
* `gaps_of_pairFree` — a gap without a pair is as short as it can be;
* `passes_of_gaps` — one pass, and the end of all passes.
-/

namespace TapeText.Code

/-- The characters that do not move the pointer, in order. -/
def fixedPart (code : List Char) : List Char := code.filter fun c => IsFixed c

/-- The moves in front of the first of these characters, between each two of them,
and behind the last one. -/
def gaps (code : List Char) : List (List Char) := code.splitOnP fun c => IsFixed c

/-- How far some moves take the pointer to the right. -/
def net (gap : List Char) : Int := (gap.count '>' : Int) - gap.count '<'

/-- The shortest moves that take the pointer so far to the right. -/
def straight (distance : Int) : List Char :=
  List.replicate distance.natAbs (if distance < 0 then '<' else '>')

/-- How far the moves of each gap take the pointer to the right. -/
def nets (code : List Char) : List Int := (gaps code).map net

variable {a b c : Char} {code gap rest : List Char}

/-- A character that stays closes the gap in front of it, which is empty here. -/
theorem gaps_cons_of_fixed (hc : IsFixed c) (rest : List Char) :
    gaps (c :: rest) = [] :: gaps rest := by
  unfold gaps
  rw [List.splitOnP_cons_eq_if_modifyHead, if_pos (decide_eq_true hc)]

/-- A move belongs to the first gap of what follows. -/
theorem gaps_cons_of_move (hc : ¬ IsFixed c) (rest : List Char) :
    gaps (c :: rest) = (gaps rest).modifyHead (c :: ·) := by
  unfold gaps
  rw [List.splitOnP_cons_eq_if_modifyHead, if_neg (by simpa using hc)]

theorem eq_of_not_isFixed (hc : ¬ IsFixed c) : c = '<' ∨ c = '>' := by
  unfold IsFixed at hc
  rwa [Decidable.not_and_iff_not_or_not, Decidable.not_not, Decidable.not_not] at hc

/-- Two moves that are no pair go the same way. -/
theorem eq_of_moves (ha : ¬ IsFixed a) (hb : ¬ IsFixed b) (h : opposite a b = false) : a = b := by
  rcases eq_of_not_isFixed ha with rfl | rfl <;> rcases eq_of_not_isFixed hb with rfl | rfl
  · rfl
  · exact absurd h (by decide)
  · exact absurd h (by decide)
  · rfl

theorem not_isFixed_of_opposite (h : opposite a b = true) : ¬ IsFixed a ∧ ¬ IsFixed b := by
  rcases opposite_eq_true.1 h with ⟨rfl, rfl⟩ | ⟨rfl, rfl⟩ <;> decide

/-! ## Distances -/

@[simp] theorem net_nil : net [] = 0 := rfl

/-- The distances of a gap add up. -/
theorem net_cons (c : Char) (gap : List Char) : net (c :: gap) = net [c] + net gap := by
  unfold net
  rw [List.count_cons (l := gap), List.count_cons (l := gap), List.count_singleton,
    List.count_singleton]
  omega

/-- The two halves of a pair go as far to the left as to the right. -/
theorem net_of_opposite (h : opposite a b = true) : net [a] + net [b] = 0 := by
  rcases opposite_eq_true.1 h with ⟨rfl, rfl⟩ | ⟨rfl, rfl⟩ <;> rfl

theorem nets_cons_of_fixed (hc : IsFixed c) (rest : List Char) :
    nets (c :: rest) = 0 :: nets rest := by
  unfold nets
  rw [gaps_cons_of_fixed hc, List.map_cons, net_nil]

theorem nets_cons_of_move (hc : ¬ IsFixed c) (rest : List Char) :
    nets (c :: rest) = (nets rest).modifyHead (net [c] + ·) := by
  unfold nets
  rw [gaps_cons_of_move hc]
  cases gaps rest with
  | nil => rfl
  | cons gap more =>
      rw [List.modifyHead_cons, List.map_cons, List.map_cons, List.modifyHead_cons, net_cons]

/-! ## One pass -/

/-- A pass keeps the characters that do not move the pointer. -/
theorem fixedPart_dropPairs (code : List Char) :
    fixedPart (dropPairs code) = fixedPart code := by
  induction code using pass_induction with
  | nil => rfl
  | single a => rfl
  | drop a b rest hab ih =>
      -- neither half of the pair is kept by the filter
      rcases not_isFixed_of_opposite hab with ⟨ha, hb⟩
      unfold fixedPart at ih ⊢
      rw [dropPairs_of_opposite hab, ih, List.filter_cons_of_neg (by simpa using ha),
        List.filter_cons_of_neg (by simpa using hb)]
  | keep a b rest hab ih =>
      unfold fixedPart at ih ⊢
      rw [dropPairs_of_not_opposite hab, List.filter_cons, List.filter_cons, ih]

/-- A pass keeps how far the moves of each gap go. -/
theorem nets_dropPairs (code : List Char) : nets (dropPairs code) = nets code := by
  induction code using pass_induction with
  | nil => rfl
  | single a => rfl
  | drop a b rest hab ih =>
      -- both halves of the pair belong to the first gap of what follows it
      rcases not_isFixed_of_opposite hab with ⟨ha, hb⟩
      rw [dropPairs_of_opposite hab, ih, nets_cons_of_move ha, nets_cons_of_move hb,
        List.modifyHead_modifyHead]
      have hpair : (net [a] + ·) ∘ (net [b] + ·) = id := by
        funext distance
        have hsum := net_of_opposite hab
        simp only [Function.comp_apply, id_eq]
        omega
      rw [hpair, List.modifyHead_id, id_eq]
  | keep a b rest hab ih =>
      rw [dropPairs_of_not_opposite hab]
      -- a character that stays, or a move of the first gap
      by_cases ha : IsFixed a
      · rw [nets_cons_of_fixed ha, nets_cons_of_fixed ha, ih]
      · rw [nets_cons_of_move ha, nets_cons_of_move ha, ih]

/-! ## All passes -/

/-- What one pass keeps all of them keep. -/
theorem fixedPart_iterate (count : Nat) (code : List Char) :
    fixedPart (dropPairs^[count] code) = fixedPart code := by
  induction count generalizing code with
  | zero => rfl
  | succ count ih => rw [Function.iterate_succ_apply, ih, fixedPart_dropPairs]

theorem nets_iterate (count : Nat) (code : List Char) :
    nets (dropPairs^[count] code) = nets code := by
  induction count generalizing code with
  | zero => rfl
  | succ count ih => rw [Function.iterate_succ_apply, ih, nets_dropPairs]

/-- Moves in one direction are the shortest ones that go as far. -/
theorem replicate_eq_straight (hc : ¬ IsFixed c) (count : Nat) :
    List.replicate count c = straight (net (List.replicate count c)) := by
  unfold net straight
  rcases eq_of_not_isFixed hc with rfl | rfl
  · rw [List.count_replicate_self, List.count_replicate, if_neg (by decide)]
    -- without a move there is no direction to go by
    rcases Nat.eq_zero_or_pos count with rfl | hpos
    · rfl
    · rw [if_pos (by omega), show ((0 : Nat) : Int) - count = -count by omega, Int.natAbs_neg,
        Int.natAbs_natCast]
  · rw [List.count_replicate_self, List.count_replicate, if_neg (by decide), if_neg (by omega)]
    congr 1

/-- The first gap of a program that begins with a move begins with that move. -/
theorem head?_of_head?_gaps {first : List Char} {more : List (List Char)}
    (h : gaps code = (c :: first) :: more) : code.head? = some c := by
  cases code with
  | nil => simp [gaps] at h
  | cons a rest =>
      by_cases ha : IsFixed a
      · simp [gaps_cons_of_fixed ha] at h
      · rw [gaps_cons_of_move ha] at h
        cases hrest : gaps rest with
        | nil => simp [hrest] at h
        | cons next others =>
            rw [hrest, List.modifyHead_cons, List.cons.injEq, List.cons.injEq] at h
            rw [h.1.1, List.head?_cons]

/-- In a program without pairs the moves of each gap go in one direction. -/
theorem oneWay_of_mem_gaps (h : PairFree code) (hgap : gap ∈ gaps code) :
    ∃ count c, ¬ IsFixed c ∧ gap = List.replicate count c := by
  induction code generalizing gap with
  | nil =>
      obtain rfl := List.mem_singleton.1 hgap
      exact ⟨0, '>', by decide, rfl⟩
  | cons a rest ih =>
      rcases pairFree_cons.1 h with ⟨hhead, hrest⟩
      by_cases ha : IsFixed a
      · rw [gaps_cons_of_fixed ha] at hgap
        rcases List.mem_cons.1 hgap with rfl | hmem
        · exact ⟨0, '>', by decide, rfl⟩
        · exact ih hrest hmem
      · rw [gaps_cons_of_move ha] at hgap
        cases hgaps : gaps rest with
        | nil => simp [hgaps] at hgap
        | cons first more =>
            rw [hgaps] at ih
            rw [hgaps, List.modifyHead_cons] at hgap
            rcases List.mem_cons.1 hgap with rfl | hmem
            · -- the move joins the gap behind it
              rcases ih hrest List.mem_cons_self with ⟨count, c, hc, rfl⟩
              cases count with
              | zero => exact ⟨1, a, ha, rfl⟩
              | succ count =>
                  -- no pair is at the front, so the move goes the way of its neighbour
                  have hsame : a = c := eq_of_moves ha hc (hhead c (head?_of_head?_gaps hgaps))
                  exact ⟨count + 2, a, ha, by rw [hsame]; rfl⟩
            · exact ih hrest (List.mem_cons_of_mem first hmem)

/-- In a program without pairs each gap is as short as its distance allows. -/
theorem gaps_of_pairFree (h : PairFree code) : gaps code = (nets code).map straight := by
  have hstraight : ∀ gap ∈ gaps code, gap = straight (net gap) := by
    intro gap hgap
    rcases oneWay_of_mem_gaps h hgap with ⟨count, c, hc, rfl⟩
    exact replicate_eq_straight hc count
  calc gaps code = (gaps code).map id := (List.map_id _).symm
    _ = (gaps code).map (straight ∘ net) := List.map_congr_left hstraight
    _ = (nets code).map straight := List.map_map.symm

/-- A pass keeps the characters that do not move the pointer, and in each gap between
them how far the moves go; it changes nothing exactly if there is no pair. Made as
often as half the length of the program it ends in a program with the same characters
and with gaps as short as their distances allow, and changes nothing any more. -/
theorem passes_of_gaps (code : List Char) :
    fixedPart (dropPairs code) = fixedPart code ∧
    (gaps (dropPairs code)).map net = (gaps code).map net ∧
    (dropPairs code = code ↔ ¬ ['<', '>'] <:+: code ∧ ¬ ['>', '<'] <:+: code) ∧
    ∃ count ≤ code.length / 2,
      fixedPart (dropPairs^[count] code) = fixedPart code ∧
      gaps (dropPairs^[count] code) = (gaps code).map (fun gap => straight (net gap)) ∧
      ∀ more, dropPairs^[more] (dropPairs^[count] code) = dropPairs^[count] code := by
  have hfree := pairFree_iterate (Nat.le_refl (code.length / 2))
  refine ⟨fixedPart_dropPairs code, nets_dropPairs code, ?_, code.length / 2, Nat.le_refl _,
    fixedPart_iterate _ code, ?_, iterate_dropPairs_of_pairFree hfree⟩
  · rw [dropPairs_eq_self_iff]
    exact ⟨fun h => ⟨h.no_left_right, h.no_right_left⟩, fun h => ⟨h.1, h.2⟩⟩
  · rw [gaps_of_pairFree hfree, nets_iterate, nets, List.map_map]
    rfl

end TapeText.Code
