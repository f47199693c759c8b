import TapeText.Proofs.Loop.Search
import Mathlib.Tactic.Linarith

/-!
# TapeText.Proofs.Loop.Size — how many symbols a plan takes

A loop is written with one symbol for each round, for each step of the stride,
and for each step of the correction. The search does not look for the fewest
symbols but for the smallest spread. For one product this is the same; but the
products within reach of a magnitude differ by up to twice the reach, and
corrections differ in size.

* `size` — the symbols that a plan takes;
* `excess_le` — how much larger the sum of two factors with a smaller gap can be;
* `size_best_le` — no plan takes less than two symbols fewer than the best one;
* `best_of_three_apart` — for each magnitude with two factors that are three apart,
  there is one that takes two symbols fewer;
* `size_best_cases` — from which magnitude on a loop is worth its size.
-/

namespace TapeText.Loop.Plan

variable {n a b k : Nat}

/-- The symbols that a plan takes in the loop and behind it. -/
def size (p : Plan) : Nat := p.rounds + p.stride + p.correction.natAbs

/-! ## The best plan against any other -/

/-- The squares of the sum and of the gap of two factors differ by four times their
product. So a sum that is larger by `t`, with a gap that is smaller, comes from a
larger product. -/
theorem excess_le {x y u v t : Int} (ht : 0 ≤ t) (huv : 0 ≤ u + v) (hsum : u + v + t ≤ x + y)
    (hxy : x ≤ y) (hgap : y - x ≤ v - u) :
    t * (2 * (u + v) + t) + ((v - u) - (y - x)) ≤ 4 * (x * y - u * v) := by
  have hsquares : (u + v + t) * (u + v + t) ≤ (x + y) * (x + y) :=
    mul_self_le_mul_self (by omega) hsum
  -- gaps are whole numbers, so if one is smaller their sum is at least one
  have hgaps : (v - u) - (y - x) ≤ ((v - u) - (y - x)) * ((v - u) + (y - x)) := by
    rcases Int.lt_or_eq_of_le hgap with hlt | heq
    · exact le_mul_of_one_le_right (by omega) (by omega)
    · simp [heq]
  have hidentity : (x + y) * (x + y) - (u + v) * (u + v) =
      4 * (x * y - u * v) - ((v - u) - (y - x)) * ((v - u) + (y - x)) := by ring
  have hexpand : (u + v + t) * (u + v + t) = (u + v) * (u + v) + t * (2 * (u + v) + t) := by ring
  linarith

/-- Two factors in order, whose product is in range and within reach, take at most
two symbols fewer than the best plan. -/
theorem size_best_le_of_le (hn : n ≤ maxMagnitude) (ha : 0 < a) (hab : a ≤ b)
    (hmax : a * b ≤ maxMagnitude) (hnear : ((n : Int) - (a * b : Nat)).natAbs ≤ reach) :
    (best n).size ≤ a + b + ((n : Int) - (a * b : Nat)).natAbs + 2 := by
  have hle := (best_serves n).rounds_le_stride
  have hcorrection := (best_serves n).correction_le
  have hkey := key_le_iff.1 (best_key_le hn ha hab hmax hnear)
  simp only [spread] at hkey
  -- what a sum larger by `t` would mean for the product, which is only a few away
  have hexcess : ∀ t : Int, 0 ≤ t → (a : Int) + b + t ≤ (best n).rounds + (best n).stride →
      t * (2 * (a + b) + t) + ((b - a) - ((best n).stride - (best n).rounds)) ≤
        4 * (n - (best n).correction - (a * b : Nat)) := by
    intro t ht hsum
    rw [← (best_serves n).product, Int.natCast_mul]
    exact excess_le ht (by omega) hsum (by omega) (by omega)
  unfold size
  unfold reach at hcorrection hnear
  apply Nat.le_of_not_lt
  intro hmore
  rcases Nat.lt_or_ge ((best n).rounds + (best n).stride) (a + b + 3) with hsum | hsum
  · -- the correction is longer than the other one, so the gap is smaller
    have hgap : (best n).stride - (best n).rounds < b - a := by omega
    rcases Nat.lt_or_ge ((best n).rounds + (best n).stride) (a + b + 2) with hlt | hge
    · -- only the factors of 2 are left
      have hone := hexcess 1 (by decide) (by omega)
      have ha : a = 1 := by omega
      have hb : b = 2 := by omega
      have hmagnitude : n = 2 := by
        rw [ha, hb] at hmore
        omega
      subst hmagnitude
      have hbest : (best 2).rounds + (best 2).stride = 2 := by decide +kernel
      omega
    · have htwo := hexcess 2 (by decide) (by omega)
      omega
  · have hthree := hexcess 3 (by decide) (by omega)
    omega

/-- Two factors, whose product is in range and within reach, take at most two
symbols fewer than the best plan. -/
theorem size_best_le (hn : n ≤ maxMagnitude) (ha : 0 < a) (hb : 0 < b)
    (hmax : a * b ≤ maxMagnitude) (hnear : ((n : Int) - (a * b : Nat)).natAbs ≤ reach) :
    (best n).size ≤ a + b + ((n : Int) - (a * b : Nat)).natAbs + 2 := by
  -- neither the sum nor the product depends on the order
  rcases Nat.le_total a b with hab | hba
  · exact size_best_le_of_le hn ha hab hmax hnear
  · rw [Nat.mul_comm] at hmax hnear ⊢
    rw [Nat.add_comm a b]
    exact size_best_le_of_le hn hb hba hmax hnear

/-- Around the product of two factors that are three apart there is no square, and
only one product of two neighbours. -/
theorem eq_succ_of_near_three_apart {r gap : Nat} (hk : 4 ≤ k) (hgap : gap ≤ 1)
    (hlow : k * (k + 3) ≤ r * (r + gap) + 2) (hhigh : r * (r + gap) ≤ k * (k + 3) + 2) :
    r = k + 1 ∧ gap = 1 := by
  -- a smaller first factor stays below the product, a larger one exceeds it
  rcases Nat.lt_trichotomy r (k + 1) with hless | heq | hmore
  · have hmul : r * (r + gap) ≤ k * (k + 1) := Nat.mul_le_mul (by omega) (by omega)
    have hbelow : k * (k + 3) = k * (k + 1) + 2 * k := by ring
    omega
  · rcases Nat.eq_zero_or_pos gap with hsquare | hpos
    · have hbelow : (k + 1) * (k + 1 + 0) + k = k * (k + 3) + 1 := by ring
      rw [heq, hsquare] at hlow
      omega
    · exact ⟨heq, by omega⟩
  · have hmul : (k + 2) * (k + 2) ≤ r * (r + gap) := Nat.mul_le_mul (by omega) (by omega)
    have habove : (k + 2) * (k + 2) = k * (k + 3) + k + 4 := by ring
    omega

/-- For the product of two factors that are three apart, the search takes the number
two above it, whose factors are only one apart. -/
theorem best_of_three_apart (hk : 4 ≤ k) (hmax : (k + 1) * (k + 2) ≤ maxMagnitude) :
    best (k * (k + 3)) = ⟨k + 1, k + 2, -2⟩ := by
  have habove : (k + 1) * (k + 2) = k * (k + 3) + 2 := by ring
  have hserves := best_serves (k * (k + 3))
  have hproduct := hserves.product_spread
  have hcorrection := hserves.correction_le
  -- the two neighbours make a plan with a spread of one, and the search does no worse
  have hkey := key_le_iff.1 (best_key_le (n := k * (k + 3)) (a := k + 1) (b := k + 2)
    (by omega) (by omega) (by omega) hmax (by unfold reach; omega))
  have hgap : (best (k * (k + 3))).spread ≤ 1 := by
    rcases hkey with hlt | ⟨heq, -⟩
    · exact Nat.le_trans (Nat.le_of_lt hlt) (by simp [spread])
    · rw [heq]
      simp [spread]
  unfold reach at hcorrection
  rcases eq_succ_of_near_three_apart (r := (best (k * (k + 3))).rounds) hk hgap (by omega)
    (by omega) with ⟨hrounds, hspread⟩
  rw [hrounds, hspread, habove] at hproduct
  have hstride : (best (k * (k + 3))).stride = k + 2 := by
    unfold spread at hspread
    omega
  have hback : (best (k * (k + 3))).correction = -2 := by omega
  rw [← hrounds, ← hstride, ← hback]

/-! ## The best plan against no loop at all -/

/-- From this magnitude on, three rounds are enough to save all that a loop takes. -/
theorem size_best_lt (hn : n ≤ maxMagnitude) (hlarge : 18 ≤ n) : (best n).size + 5 < n := by
  have hdiv : 3 * (n / 3) + n % 3 = n := Nat.div_add_mod n 3
  -- the plan with three rounds, and at most a third of the magnitude as its stride
  have hle := size_best_le (n := n) (a := 3) (b := n / 3) hn (by decide) (by omega) (by omega)
    (by unfold reach; omega)
  omega

/-- Below it there are few enough plans to look at each. -/
theorem size_best_small : ∀ n < 18,
    (n < (best n).size + 5 ↔ n ≤ 11 ∨ n = 14) ∧ (n = (best n).size + 5 ↔ n = 12 ∨ n = 13) := by
  decide +kernel

/-- A loop has five symbols more around its plan than a plain move has. -/
theorem size_best_cases (hn : n ≤ maxMagnitude) :
    (n < (best n).size + 5 ↔ n ≤ 11 ∨ n = 14) ∧ (n = (best n).size + 5 ↔ n = 12 ∨ n = 13) := by
  rcases Nat.lt_or_ge n 18 with hsmall | hlarge
  · exact size_best_small n hsmall
  · have hlt := size_best_lt hn hlarge
    omega

end TapeText.Loop.Plan
