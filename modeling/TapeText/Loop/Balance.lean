/-!
# TapeText.Loop.Balance — balanced factor pairs

A counting loop of `a` rounds that adds `b` each time reaches `a * b`, and it
is written with about `a + b` symbols. For a fixed product the sum is least
when the factors are closest, so the pair of interest starts with the largest
divisor that does not exceed the square root.
-/

namespace TapeText.Loop

/-- The largest divisor of `n` among `1, …, top`, or `1` if there is none. -/
def largestDivisor (n : Nat) : (top : Nat) → Nat
  | 0 => 1
  | d + 1 => if n % (d + 1) = 0 then d + 1 else largestDivisor n d

/-- The factors of `n` that are closest to each other, the smaller one first;
zero is split into two zeros. -/
def balancedPair (n : Nat) : Nat × Nat :=
  if n = 0 then (0, 0)
  else
    let a := largestDivisor n n.sqrt
    (a, n / a)

theorem largestDivisor_pos (n top : Nat) : 0 < largestDivisor n top := by
  induction top with
  | zero => exact Nat.one_pos
  | succ d ih =>
    rw [largestDivisor]
    split
    · exact Nat.succ_pos d
    · exact ih

theorem largestDivisor_dvd (n top : Nat) : largestDivisor n top ∣ n := by
  induction top with
  | zero => exact Nat.one_dvd n
  | succ d ih =>
    rw [largestDivisor]
    split
    · next h => exact Nat.dvd_of_mod_eq_zero h
    · exact ih

/-- It does not look beyond its bound. -/
theorem largestDivisor_le {n top : Nat} (h : 0 < top) : largestDivisor n top ≤ top := by
  induction top with
  | zero => exact absurd h (Nat.lt_irrefl 0)
  | succ d ih =>
    rw [largestDivisor]
    split
    · exact Nat.le_refl _
    · next hd =>
      rcases Nat.eq_zero_or_pos d with rfl | hpos
      · simp [Nat.mod_one] at hd
      · exact Nat.le_succ_of_le (ih hpos)

/-- No divisor up to the bound is larger. -/
theorem le_largestDivisor {n top d : Nat} (hd : d ∣ n) (hpos : 0 < d) (hle : d ≤ top) :
    d ≤ largestDivisor n top := by
  induction top with
  | zero => omega
  | succ t ih =>
    rw [largestDivisor]
    split
    · exact hle
    · next h =>
      rcases Nat.lt_or_ge d (t + 1) with hlt | hge
      · exact ih (Nat.le_of_lt_succ hlt)
      · have : d = t + 1 := Nat.le_antisymm hle hge
        exact absurd (Nat.mod_eq_zero_of_dvd (this ▸ hd)) h

/-- The two factors multiply to the number. -/
theorem balancedPair_mul (n : Nat) : (balancedPair n).1 * (balancedPair n).2 = n := by
  rw [balancedPair]
  split
  · next h => simp [h]
  · exact Nat.mul_div_cancel' (largestDivisor_dvd n n.sqrt)

end TapeText.Loop
