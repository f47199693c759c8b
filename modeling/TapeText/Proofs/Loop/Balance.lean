import TapeText.Loop.Plan
import Mathlib.Data.Nat.Sqrt
import Mathlib.Order.Bounds.Basic

/-!
# TapeText.Proofs.Loop.Balance — the closest factors of a number

The balanced pair starts with the largest divisor up to the square root. With
the product fixed, a larger first factor has a smaller cofactor, so that pair
leaves the smallest gap between its factors.

* `balancedPair_le` — the smaller factor comes first;
* `le_balancedPair` — no divisor up to the square root is larger;
* `spread_balancedPair_le` — no two factors of a number are closer;
* `eq_of_gap_eq` — and no other two are as close;
* `balancedPair_closest` — all of this for every magnitude.
-/

namespace TapeText.Loop

variable {n a b : Nat}

theorem balancedPair_of_pos (h : 0 < n) :
    balancedPair n = (largestDivisor n n.sqrt, n / largestDivisor n n.sqrt) := by
  unfold balancedPair
  rw [if_neg (Nat.ne_of_gt h)]

theorem balancedPair_pos (h : 0 < n) : 0 < (balancedPair n).1 := by
  rw [balancedPair_of_pos h]
  exact largestDivisor_pos n n.sqrt

/-- The first factor does not exceed the square root. -/
theorem balancedPair_mul_self_le (h : 0 < n) : (balancedPair n).1 * (balancedPair n).1 ≤ n := by
  rw [balancedPair_of_pos h]
  have hle := largestDivisor_le (n := n) (Nat.sqrt_pos.2 h)
  exact Nat.le_trans (Nat.mul_le_mul hle hle) (Nat.sqrt_le n)

/-- The smaller factor comes first. -/
theorem balancedPair_le (h : 0 < n) : (balancedPair n).1 ≤ (balancedPair n).2 := by
  have hmul := balancedPair_mul n
  have hsquare := balancedPair_mul_self_le h
  -- the square of the first factor is at most the product of both
  apply Nat.le_of_mul_le_mul_left _ (balancedPair_pos h)
  omega

/-- No divisor up to the square root is larger than the first factor. -/
theorem le_balancedPair (hpos : 0 < a) (hdvd : a ∣ n) (hn : 0 < n) (hsquare : a * a ≤ n) :
    a ≤ (balancedPair n).1 := by
  rw [balancedPair_of_pos hn]
  exact le_largestDivisor hdvd hpos (Nat.le_sqrt.2 hsquare)

/-- With the product fixed, a larger factor has a smaller cofactor. -/
theorem cofactor_le {p q : Nat} (hmul : p * q = a * b) (hpos : 0 < p) (hle : a ≤ p) : q ≤ b := by
  have hcofactor : p * q ≤ p * b := by
    rw [hmul]
    exact Nat.mul_le_mul_right b hle
  exact Nat.le_of_mul_le_mul_left hcofactor hpos

/-- With the product fixed, a larger first factor leaves a smaller gap. -/
theorem sub_le_sub_of_mul_eq {p q : Nat} (hmul : p * q = a * b) (hpos : 0 < p) (hle : a ≤ p) :
    q - p ≤ b - a := by
  have hqb := cofactor_le hmul hpos hle
  omega

/-- No two factors of a number are closer than those of its balanced pair. -/
theorem spread_balancedPair_le (ha : 0 < a) (hab : a ≤ b) :
    (balancedPair (a * b)).2 - (balancedPair (a * b)).1 ≤ b - a := by
  have hpos : 0 < a * b := Nat.mul_pos ha (Nat.lt_of_lt_of_le ha hab)
  have hsquare : a * a ≤ a * b := Nat.mul_le_mul_left a hab
  have hle := le_balancedPair ha (Nat.dvd_mul_right a b) hpos hsquare
  exact sub_le_sub_of_mul_eq (balancedPair_mul (a * b)) (balancedPair_pos hpos) hle

/-- No other two factors of a number are as close. -/
theorem eq_of_gap_eq (ha : 0 < a) (hab : a ≤ b)
    (hgap : b - a = (balancedPair (a * b)).2 - (balancedPair (a * b)).1) :
    a = (balancedPair (a * b)).1 ∧ b = (balancedPair (a * b)).2 := by
  have hpos : 0 < a * b := Nat.mul_pos ha (Nat.lt_of_lt_of_le ha hab)
  have hle := le_balancedPair ha (Nat.dvd_mul_right a b) hpos (Nat.mul_le_mul_left a hab)
  -- the factors of the pair lie between the two, so with the same gap they are the same
  have hcofactor := cofactor_le (balancedPair_mul (a * b)) (balancedPair_pos hpos) hle
  have horder := balancedPair_le hpos
  omega

/-- The pair of a magnitude multiplies to it, and its first factor is the largest
divisor whose square does not exceed it. No two factors of the magnitude are closer
to each other, and only the two of the pair are as close. -/
theorem balancedPair_closest (n : Nat) (hpos : 0 < n) (hn : n ≤ Plan.maxMagnitude) :
    ∃ a b : Nat, balancedPair n = (a, b) ∧ a * b = n ∧ a * a ≤ n ∧ a ≤ b ∧
      IsGreatest {d : Nat | d ∣ n ∧ d * d ≤ n} a ∧
      (∀ d e : Nat, 0 < d → 0 < e → d * e = n →
        b - a ≤ ((d : Int) - e).natAbs ∧
          (((d : Int) - e).natAbs = b - a ↔ (d = a ∧ e = b) ∨ (d = b ∧ e = a))) ∧
      a ≤ 65535 := by
  have hsquare := balancedPair_mul_self_le hpos
  have horder := balancedPair_le hpos
  refine ⟨(balancedPair n).1, (balancedPair n).2, rfl, balancedPair_mul n, hsquare, horder,
    ⟨⟨?_, hsquare⟩, ?_⟩, ?_, ?_⟩
  · exact ⟨_, (balancedPair_mul n).symm⟩
  · rintro d ⟨hdvd, hle⟩
    exact le_balancedPair (Nat.pos_of_dvd_of_pos hdvd hpos) hdvd hpos hle
  · intro d e hd he hmul
    -- the gap does not depend on the order of the two factors
    rcases Nat.le_total d e with hde | hed
    · have hgap := spread_balancedPair_le hd hde
      have heq := eq_of_gap_eq hd hde
      rw [hmul] at hgap heq
      omega
    · have hgap := spread_balancedPair_le he hed
      have heq := eq_of_gap_eq he hed
      rw [Nat.mul_comm, hmul] at hgap heq
      omega
  · apply Nat.le_of_not_lt
    intro hlarge
    -- from 65536 on the square exceeds the largest magnitude
    have hmul : 65536 * 65536 ≤ (balancedPair n).1 * (balancedPair n).1 :=
      Nat.mul_le_mul hlarge hlarge
    unfold Plan.maxMagnitude at hn
    omega

/-- The largest magnitude of all: its factors are no more than two apart, because
65535 and 65537 are not. -/
theorem balancedPair_closest_at_top : (0 < 4294967295 ∧ 4294967295 ≤ Plan.maxMagnitude ∧
      0 < 65537 ∧ 0 < 65535 ∧ 65537 * 65535 = 4294967295) ∧
    ∃ a b : Nat, balancedPair 4294967295 = (a, b) ∧ a * b = 4294967295 ∧ b - a ≤ 2 ∧
      a ≤ 65535 := by
  have hrange : 0 < 4294967295 ∧ 4294967295 ≤ Plan.maxMagnitude ∧
      0 < 65537 ∧ 0 < 65535 ∧ 65537 * 65535 = 4294967295 := by decide
  refine ⟨hrange, ?_⟩
  rcases hrange with ⟨hpos, hn, hd, he, hmul⟩
  rcases balancedPair_closest 4294967295 hpos hn with
    ⟨a, b, hpair, hproduct, -, -, -, hclosest, ha⟩
  exact ⟨a, b, hpair, hproduct, (hclosest 65537 65535 hd he hmul).1, ha⟩

end TapeText.Loop
