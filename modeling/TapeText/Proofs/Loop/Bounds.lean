import TapeText.Proofs.Loop.Balance
import TapeText.Proofs.Loop.Ranking

/-!
# TapeText.Proofs.Loop.Bounds — how far a plan can go

The bounds that the search for a plan guarantees for every magnitude, whether
the plan comes from a candidate or from the fallback behind the last one.

* `Serves` — what a plan for a magnitude satisfies;
* `best_serves` — the plan that the search returns satisfies it.
-/

namespace TapeText.Loop.Plan

variable {n : Nat}

/-- What a plan for a magnitude satisfies: its loop runs, is no longer than its
stride, stays within the largest magnitude, and leaves a correction within
reach. -/
structure Serves (p : Plan) (n : Nat) : Prop where
  rounds_pos : 0 < p.rounds
  rounds_le_stride : p.rounds ≤ p.stride
  square_le : p.rounds * p.rounds ≤ maxMagnitude
  correction_le : p.correction.natAbs ≤ reach
  value_eq : p.value = n

/-- An offset that stays in range gives the plan through the balanced pair. -/
theorem atOffset?_eq_some {offset : Int}
    (h : 0 < (n : Int) + offset ∧ (n : Int) + offset ≤ maxMagnitude) :
    atOffset? n offset =
      some ⟨(balancedPair (n + offset).toNat).1, (balancedPair (n + offset).toNat).2, -offset⟩ := by
  unfold atOffset?
  exact if_pos h

/-- The search tries every offset up to the reach. -/
theorem mem_offsets_iff {offset : Int} : offset ∈ offsets ↔ offset.natAbs ≤ reach := by
  rw [offsets_eq]
  unfold reach
  simp only [List.mem_cons, List.not_mem_nil, or_false]
  omega

/-- Such a plan serves the magnitude. -/
theorem atOffset?_serves {offset : Int} {p : Plan} (hoffset : offset.natAbs ≤ reach)
    (h : atOffset? n offset = some p) : p.Serves n := by
  have hvalue := atOffset?_value h
  unfold atOffset? at h
  simp only [Option.ite_none_right_eq_some] at h
  rcases h with ⟨⟨hpos, hmax⟩, h⟩
  obtain rfl := Option.some.inj h
  have htarget : 0 < ((n : Int) + offset).toNat := by omega
  constructor
  · exact balancedPair_pos htarget
  · exact balancedPair_le htarget
  · have hsquare := balancedPair_mul_self_le htarget
    show (balancedPair _).1 * (balancedPair _).1 ≤ _
    omega
  · show (-offset).natAbs ≤ reach
    omega
  · exact hvalue

/-- Only beyond the largest magnitude is there nothing to choose from. -/
theorem lt_of_candidates_eq_nil (h : candidates n = []) : maxMagnitude < n := by
  have hall := List.filterMap_eq_nil_iff.1 h
  rw [offsets_eq] at hall
  by_cases hn : n ≤ maxMagnitude
  · -- the magnitude itself is a candidate, or the number above it
    exfalso
    rcases Nat.eq_zero_or_pos n with rfl | hpos
    · have hone := hall 1 (by decide)
      rw [atOffset?_eq_some (by decide)] at hone
      simp at hone
    · have hzero := hall 0 (by decide)
      rw [atOffset?_eq_some (by omega)] at hzero
      simp at hzero
  · exact Nat.lt_of_not_le hn

/-- Every plan that the search looks at serves the magnitude. -/
theorem serves_of_mem {p : Plan} (h : p ∈ candidates n) : p.Serves n := by
  rcases List.mem_filterMap.1 h with ⟨offset, hoffset, hp⟩
  exact atOffset?_serves (mem_offsets_iff.1 hoffset) hp

/-- The plan that the search returns serves the magnitude. -/
theorem best_serves (n : Nat) : (best n).Serves n := by
  unfold best
  cases h : first? (candidates n) with
  | none =>
      rw [first?_eq_scan?] at h
      -- no candidate: the plan in reserve has one round, and the magnitude as its stride
      have hn := lt_of_candidates_eq_nil (scan?_eq_none h)
      unfold maxMagnitude at hn
      refine ⟨Nat.one_pos, ?_, ?_, ?_, ?_⟩
      · show 1 ≤ n
        omega
      · show 1 * 1 ≤ maxMagnitude
        decide
      · exact Nat.zero_le _
      · simp [value]
  | some p => exact serves_of_mem (first?_mem h)

variable {p : Plan}

/-- The loop overshoots or falls short by at most the reach. -/
theorem Serves.product (h : p.Serves n) :
    (p.rounds : Int) * p.stride = n - p.correction := by
  have hvalue := h.value_eq
  unfold value at hvalue
  omega

/-- The stride is the spread on top of the rounds. -/
theorem Serves.product_spread (h : p.Serves n) :
    ((p.rounds * (p.rounds + p.spread) : Nat) : Int) = n - p.correction := by
  unfold spread
  rw [Nat.add_sub_cancel' h.rounds_le_stride, Int.natCast_mul, h.product]

/-- The rounds of a plan are no more than about the square root of the magnitude. -/
theorem Serves.square_le_add (h : p.Serves n) : p.rounds * p.rounds ≤ n + reach := by
  have hproduct := h.product_spread
  have hcorrection := h.correction_le
  have hmul := Nat.mul_le_mul_left p.rounds (Nat.le_add_right p.rounds p.spread)
  omega

/-- A magnitude beyond the reach needs a stride. -/
theorem Serves.stride_pos (h : p.Serves n) : 0 < p.stride :=
  Nat.lt_of_lt_of_le h.rounds_pos h.rounds_le_stride

end TapeText.Loop.Plan
