import TapeText.Loop.Balance

/-!
# TapeText.Loop.Plan — how a counting loop reaches a magnitude

A plan is a number of rounds, a stride that is added in each round, and a small
correction after the loop. The search looks at every number up to `reach` away
from the magnitude, splits each into its balanced pair, and keeps the pair with
the smallest spread. Of two pairs with equal spread the one with the smaller
correction wins, and of two equal ones the lower number.
-/

namespace TapeText.Loop

/-- `rounds * stride + correction`: a loop and the correction after it. -/
structure Plan where
  /-- How often the loop body runs. -/
  rounds : Nat
  /-- How far one round moves the register. -/
  stride : Nat
  /-- What is missing after the loop. -/
  correction : Int
deriving DecidableEq, Repr

namespace Plan

/-- The number that the plan reaches. -/
def value (p : Plan) : Int := (p.rounds : Int) * p.stride + p.correction

/-- How far the two factors are apart. -/
def spread (p : Plan) : Nat := p.stride - p.rounds

/-- A smaller spread precedes; with equal spreads, a smaller correction. -/
def precedes (p q : Plan) : Bool :=
  p.spread < q.spread || (p.spread == q.spread && p.correction.natAbs < q.correction.natAbs)

/-- The first plan of a list that no other one precedes. -/
def first? : List Plan → Option Plan
  | [] => none
  | p :: rest =>
    match first? rest with
    | none => some p
    | some q => if q.precedes p then some q else some p

/-! ## Search -/

/-- How far from the magnitude the search looks. -/
def reach : Nat := 2

/-- The largest magnitude, and the largest number the search looks at. -/
def maxMagnitude : Nat := 4294967295

/-- The distances the search tries, from below the magnitude to above it. -/
def offsets : List Int := (List.range (2 * reach + 1)).map fun i : Nat => (i : Int) - reach

/-- The plan through the balanced pair of `n + offset`, if that number is in
range. -/
def atOffset? (n : Nat) (offset : Int) : Option Plan :=
  let target := (n : Int) + offset
  if 0 < target ∧ target ≤ maxMagnitude then
    let (a, b) := balancedPair target.toNat
    some ⟨a, b, -offset⟩
  else
    none

def candidates (n : Nat) : List Plan := offsets.filterMap (atOffset? n)

/-- The plan for magnitude `n`. -/
def best (n : Nat) : Plan := (first? (candidates n)).getD ⟨1, n, 0⟩

theorem offsets_eq : offsets = [-2, -1, 0, 1, 2] := rfl

/-- The correction makes up for the offset. -/
theorem atOffset?_value {n : Nat} {offset : Int} {p : Plan} (h : atOffset? n offset = some p) :
    p.value = n := by
  simp only [atOffset?] at h
  split at h
  · next hr =>
    obtain ⟨rfl⟩ := h
    have hmul := balancedPair_mul ((n : Int) + offset).toNat
    have hcast : (((n : Int) + offset).toNat : Int) = n + offset := Int.toNat_of_nonneg (by omega)
    simp only [value]
    rw [← Int.natCast_mul, hmul, hcast]
    omega
  · exact absurd h (by simp)

theorem first?_mem {ps : List Plan} {p : Plan} (h : first? ps = some p) : p ∈ ps := by
  induction ps generalizing p with
  | nil => simp [first?] at h
  | cons q rest ih =>
    rw [first?] at h
    split at h
    · simp_all
    · next r hr =>
      split at h
      · obtain ⟨rfl⟩ := h
        exact List.mem_cons_of_mem _ (ih hr)
      · simp_all

/-- Every plan that the search returns reaches the magnitude. -/
theorem best_value (n : Nat) : (best n).value = n := by
  rw [best]
  cases h : first? (candidates n) with
  | none => simp [value]
  | some p =>
    obtain ⟨offset, -, hp⟩ := List.mem_filterMap.1 (first?_mem h)
    exact atOffset?_value hp

end Plan

end TapeText.Loop
