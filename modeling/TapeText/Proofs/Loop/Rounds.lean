import TapeText.Proofs.Loop.Size

/-!
# TapeText.Proofs.Loop.Rounds — how few rounds a loop has

A number may have no factors but one and itself, and a loop of one round would be
as long as a plain move. The search never comes down to that: of five numbers in a
row one is a multiple of five, and a number of about the same size that is split
with fewer rounds has a larger spread. At the largest magnitudes the search sees
fewer than five numbers, but the largest of all is a multiple of five.

* `exists_multiple_near` — a multiple of five near each magnitude;
* `five_le_rounds_best` — so the search finds no fewer than five rounds;
* `rounds_best_small` — the magnitudes that are too small for that;
* `size_best_le_fifth` — what this leaves for the size of a plan.
-/

namespace TapeText.Loop.Plan

variable {n a b : Nat}

/-- From 23 on, a multiple of five in range lies within reach, with a factor of no
less than five beside the five. -/
theorem exists_multiple_near (hn : n ≤ maxMagnitude) (hlarge : 23 ≤ n) :
    ∃ k, 5 ≤ k ∧ 5 * k ≤ maxMagnitude ∧ ((n : Int) - (5 * k : Nat)).natAbs ≤ reach := by
  unfold maxMagnitude at hn ⊢
  unfold reach
  exact ⟨(n + 2) / 5, by omega, by omega, by omega⟩

/-- Fewer than five rounds would leave a larger spread than the multiple of five. -/
theorem five_le_rounds_best (hn : n ≤ maxMagnitude) (hlarge : 23 ≤ n) : 5 ≤ (best n).rounds := by
  rcases exists_multiple_near hn hlarge with ⟨k, hk, hmax, hnear⟩
  have hserves := best_serves n
  have hproduct := hserves.product_spread
  have hcorrection := hserves.correction_le
  -- the plan ranks no later than the one through the multiple of five
  have hspread : (best n).spread ≤ k - 5 := by
    rcases key_le_iff.1 (best_key_le hn (by decide) hk hmax hnear) with hlt | ⟨heq, -⟩
    · exact Nat.le_of_lt hlt
    · exact Nat.le_of_eq heq
  apply Nat.le_of_not_lt
  intro hfew
  -- four rounds with that spread fall short of the magnitude
  have hmul : (best n).rounds * ((best n).rounds + (best n).spread) ≤ 4 * (4 + (k - 5)) :=
    Nat.mul_le_mul (by omega) (by omega)
  unfold reach at hcorrection hnear
  omega

/-- With five of each at least, two factors are together no more than a fifth of
their product and five. -/
theorem five_mul_add_le (ha : 5 ≤ a) (hb : 5 ≤ b) : 5 * (a + b) ≤ a * b + 25 := by
  rcases Nat.exists_eq_add_of_le ha with ⟨x, rfl⟩
  rcases Nat.exists_eq_add_of_le hb with ⟨y, rfl⟩
  have hexpand : (5 + x) * (5 + y) = 25 + 5 * x + 5 * y + x * y := by ring
  omega

/-- Below 23 there are few enough plans to look at each. -/
theorem rounds_best_small : ∀ n < 23, 12 < n →
    3 ≤ (best n).rounds ∧ (14 ≤ n → 4 ≤ (best n).rounds) ∧ (best n).size ≤ (n + 2) / 5 + 7 := by
  decide +kernel

/-- A plan takes no more than a fifth of the magnitude and a few symbols. -/
theorem size_best_le_fifth (hn : n ≤ maxMagnitude) (hlong : 12 < n) :
    (best n).size ≤ (n + 2) / 5 + 7 := by
  rcases Nat.lt_or_ge n 23 with hsmall | hlarge
  · exact (rounds_best_small n hsmall hlong).2.2
  · have hserves := best_serves n
    have hrounds := five_le_rounds_best hn hlarge
    have hproduct := hserves.product
    have hcorrection := hserves.correction_le
    have hsum := five_mul_add_le hrounds (Nat.le_trans hrounds hserves.rounds_le_stride)
    rw [← Int.natCast_mul] at hproduct
    unfold reach at hcorrection
    unfold size
    omega

end TapeText.Loop.Plan
