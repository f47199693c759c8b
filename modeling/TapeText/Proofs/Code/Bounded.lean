import TapeText.Code.Direction
import TapeText.Proofs.Loop.Search
import TapeText.Proofs.Text.Sums

/-!
# TapeText.Proofs.Code.Bounded — the arithmetic in machine words

The definitions count with numbers of any size. Machine words have an end: an
operation whose value does not fit into its word has no result, and neither has a
division by zero. Here everything that is counted on the way from units to code is
counted once more in words, with a check at each operation. No check ever fails, and
the results are those of the definitions.

* `Width`, `fit?` — the range of a word, and the check of a value;
* `deltas?`, `balancedPair?`, `candidates?`, `best?`, `value?`, `correction?` — the
  definitions with checks;
* `deltasFrom?_eq`, `balancedPair?_eq`, `atOffset?_eq`, `candidates?_eq` — each of
  them has a result, and which one;
* `arithmetic_fits` — all of them together, for all units and all magnitudes.
-/

namespace TapeText

/-- The range of a machine word. -/
structure Width where
  least : Int
  largest : Int
deriving DecidableEq, Repr

namespace Width

def unsigned32 : Width := ⟨0, 4294967295⟩

def signed32 : Width := ⟨-2147483648, 2147483647⟩

def signed64 : Width := ⟨-9223372036854775808, 9223372036854775807⟩

/-- The value as a word, if it fits. -/
def fit? (width : Width) (value : Int) : Option Int :=
  if width.least ≤ value ∧ value ≤ width.largest then some value else none

variable {value : Int}

theorem fit?_unsigned32 (hleast : 0 ≤ value) (hlargest : value ≤ 4294967295) :
    unsigned32.fit? value = some value :=
  if_pos ⟨hleast, hlargest⟩

/-- A value fits into a signed word if its distance from zero does. -/
theorem fit?_signed32 (h : value.natAbs ≤ 2147483647) : signed32.fit? value = some value := by
  have hleast : -2147483648 ≤ value := by omega
  have hlargest : value ≤ 2147483647 := by omega
  exact if_pos ⟨hleast, hlargest⟩

theorem fit?_signed64 (h : value.natAbs ≤ 9223372036854775807) :
    signed64.fit? value = some value := by
  have hleast : -9223372036854775808 ≤ value := by omega
  have hlargest : value ≤ 9223372036854775807 := by omega
  exact if_pos ⟨hleast, hlargest⟩

end Width

namespace Bounded

open Loop (balancedPair largestDivisor Plan)
open Loop.Plan (maxMagnitude reach)

/-! ## Deltas -/

/-- The deltas behind a unit. -/
def deltasFrom? (previous : UInt16) : List UInt16 → Option (List Int)
  | [] => some []
  | u :: us => do
    let delta ← Width.signed32.fit? ((u.toNat : Int) - previous.toNat)
    let deltas ← deltasFrom? u us
    return delta :: deltas

def deltas? (us : List UInt16) : Option (List Int) := deltasFrom? 0 us

/-- The difference of two units always fits. -/
theorem deltasFrom?_eq (previous : UInt16) (us : List UInt16) :
    deltasFrom? previous us = some (Text.deltasFrom previous us) := by
  induction us generalizing previous with
  | nil => rfl
  | cons u us ih =>
      have hmem : (u.toNat : Int) - previous.toNat ∈ Text.deltasFrom previous (u :: us) :=
        List.mem_cons_self
      -- two units are less than 65536 apart
      have hrange := Text.mem_deltasFrom hmem
      rw [deltasFrom?, Width.fit?_signed32 (by omega), ih u]
      rfl

/-! ## Balanced pairs -/

def remainder? (n d : Nat) : Option Nat := if d = 0 then none else some (n % d)

def quotient? (n d : Nat) : Option Nat := if d = 0 then none else some (n / d)

/-- The largest divisor of `n` among `1, …, top`. -/
def largestDivisor? (n : Nat) : (top : Nat) → Option Nat
  | 0 => some 1
  | d + 1 => do
    let rest ← remainder? n (d + 1)
    if rest = 0 then return d + 1 else largestDivisor? n d

def balancedPair? (n : Nat) : Option (Nat × Nat) :=
  if n = 0 then some (0, 0)
  else do
    let a ← largestDivisor? n n.sqrt
    let b ← quotient? n a
    return (a, b)

/-- The trial division only divides by positive numbers. -/
theorem largestDivisor?_eq (n top : Nat) :
    largestDivisor? n top = some (largestDivisor n top) := by
  induction top with
  | zero => rfl
  | succ d ih =>
      have hrest : remainder? n (d + 1) = some (n % (d + 1)) := if_neg (Nat.succ_ne_zero d)
      rw [largestDivisor?, hrest, largestDivisor, ih]
      show (if n % (d + 1) = 0 then some (d + 1) else some (largestDivisor n d)) = _
      split <;> rfl

/-- The factor that the second division is by is positive as well. -/
theorem balancedPair?_eq (n : Nat) : balancedPair? n = some (balancedPair n) := by
  have hpos : largestDivisor n n.sqrt ≠ 0 := Nat.ne_of_gt (Loop.largestDivisor_pos n n.sqrt)
  have hquotient : quotient? n (largestDivisor n n.sqrt) = some _ := if_neg hpos
  unfold balancedPair? balancedPair
  split
  · rfl
  · rw [largestDivisor?_eq]
    show (quotient? n (largestDivisor n n.sqrt)).bind _ = _
    rw [hquotient]
    rfl

/-! ## The search -/

/-- The plan through the balanced pair of `n + offset`, if that number is in range. It
is an operation without a result, and not a number out of range, that leaves nothing. -/
def atOffset? (n : Nat) (offset : Int) : Option (Option Plan) := do
  let target ← Width.signed64.fit? ((n : Int) + offset)
  if 0 < target ∧ target ≤ maxMagnitude then
    let (a, b) ← balancedPair? target.toNat
    let _spread ← Width.unsigned32.fit? ((b : Int) - a)
    let shift ← Width.signed32.fit? offset
    let correction ← Width.signed32.fit? (-shift)
    return some ⟨a, b, correction⟩
  else
    return none

/-- The plans through the numbers at some offsets. -/
def candidates? (n : Nat) : (offsets : List Int) → Option (List Plan)
  | [] => some []
  | offset :: offsets => do
    let plan ← atOffset? n offset
    let plans ← candidates? n offsets
    return plan.toList ++ plans

/-- The plan for magnitude `n`; none also if there is no candidate. -/
def best? (n : Nat) : Option Plan := do
  let plans ← candidates? n Plan.offsets
  Plan.first? plans

variable {n : Nat}

/-- The gap between the closest factors of a magnitude is a magnitude. -/
theorem fit?_gap (hpos : 0 < n) (hn : n ≤ maxMagnitude) :
    Width.unsigned32.fit? (((balancedPair n).2 : Int) - (balancedPair n).1) =
      some (((balancedPair n).2 : Int) - (balancedPair n).1) := by
  have horder := Loop.balancedPair_le hpos
  have hfactor : (balancedPair n).2 ≤ n :=
    Nat.le_of_dvd hpos (Dvd.intro_left _ (Loop.balancedPair_mul n))
  unfold maxMagnitude at hn
  exact Width.fit?_unsigned32 (by omega) (by omega)

/-- No number that the search looks at leaves its word, above or below. -/
theorem atOffset?_eq {offset : Int} (hn : n ≤ maxMagnitude) (hoffset : offset.natAbs ≤ reach) :
    atOffset? n offset = some (Plan.atOffset? n offset) := by
  have htarget : ((n : Int) + offset).natAbs ≤ 9223372036854775807 := by
    unfold maxMagnitude at hn
    unfold reach at hoffset
    omega
  have hshift : offset.natAbs ≤ 2147483647 := Nat.le_trans hoffset (by decide)
  have hback : (-offset).natAbs ≤ 2147483647 := by rwa [Int.natAbs_neg]
  unfold atOffset? Plan.atOffset?
  rw [Width.fit?_signed64 htarget]
  simp only [Option.bind_eq_bind, Option.bind_some]
  split
  · next hrange =>
    -- the number is positive, and no factor is greater than it
    rw [balancedPair?_eq, Width.fit?_signed32 hshift]
    simp only [Option.bind_some]
    rw [fit?_gap (by omega) (by omega), Width.fit?_signed32 hback]
    rfl
  · rfl

/-- The induction is on the offsets: each of them has a result, be it a plan or none. -/
theorem candidates?_eq {offsets : List Int} (hn : n ≤ maxMagnitude)
    (hoffsets : ∀ offset ∈ offsets, offset.natAbs ≤ reach) :
    candidates? n offsets = some (offsets.filterMap (Plan.atOffset? n)) := by
  induction offsets with
  | nil => rfl
  | cons offset offsets ih =>
      rcases List.forall_mem_cons.1 hoffsets with ⟨hfirst, hrest⟩
      rw [candidates?, atOffset?_eq hn hfirst, ih hrest, List.filterMap_cons]
      cases Plan.atOffset? n offset <;> rfl

/-- The search of a magnitude has a plan. -/
theorem best?_eq (hn : n ≤ maxMagnitude) : best? n = some (Plan.best n) := by
  have hcandidates : candidates? n Plan.offsets = some (Plan.candidates n) :=
    candidates?_eq hn (fun offset => Plan.mem_offsets_iff.1)
  unfold best?
  rw [hcandidates]
  exact Plan.first?_candidates hn

/-! ## Plans -/

def value? (p : Plan) : Option Int := do
  let product ← Width.signed64.fit? ((p.rounds : Int) * p.stride)
  Width.signed64.fit? (product + p.correction)

/-- What is added behind the loop of a plan. -/
def correction? (direction : Code.Direction) (p : Plan) : Option Int :=
  Width.signed32.fit? (direction.sign * p.correction)

/-- The product of a plan is a magnitude as well, and with the correction it is the one
that was asked for. -/
theorem value?_best (hn : n ≤ maxMagnitude) : value? (Plan.best n) = some (n : Int) := by
  have hproduct := Plan.product_le_of_mem (Plan.best_least hn).mem
  have hvalue : ((Plan.best n).rounds : Int) * (Plan.best n).stride +
      (Plan.best n).correction = n := Plan.best_value n
  unfold maxMagnitude at hn hproduct
  unfold value?
  rw [← Int.natCast_mul] at hvalue ⊢
  rw [Width.fit?_signed64 (by omega)]
  show Width.signed64.fit? (((Plan.best n).rounds * (Plan.best n).stride : Nat) +
    (Plan.best n).correction) = _
  rw [hvalue]
  exact Width.fit?_signed64 (by omega)

/-- A correction is too small for its sign to matter. -/
theorem correction?_best (direction : Code.Direction) (n : Nat) :
    correction? direction (Plan.best n) = some (direction.sign * (Plan.best n).correction) := by
  have hreach := (Plan.best_serves n).correction_le
  have hsign : (direction.sign * (Plan.best n).correction).natAbs =
      (Plan.best n).correction.natAbs := by
    cases direction <;> simp [Code.Direction.sign]
  unfold reach at hreach
  exact Width.fit?_signed32 (by omega)

/-- Nothing that is counted on the way from units to code leaves the range of its word,
and nothing is divided by zero: with all the checks, the deltas of any units and the
balanced pair, the plan and the correction of any magnitude are what they are without.
There always is a candidate for the plan, and the plan reaches the magnitude in words
as well. -/
theorem arithmetic_fits (us : List UInt16) (magnitude : UInt32) :
    deltas? us = some (Text.deltas us) ∧
      balancedPair? magnitude.toNat = some (balancedPair magnitude.toNat) ∧
      best? magnitude.toNat = some (Plan.best magnitude.toNat) ∧
      Plan.first? (Plan.candidates magnitude.toNat) = some (Plan.best magnitude.toNat) ∧
      (∀ direction : Code.Direction, correction? direction (Plan.best magnitude.toNat) =
        some (direction.sign * (Plan.best magnitude.toNat).correction)) ∧
      value? (Plan.best magnitude.toNat) = some (magnitude.toNat : Int) := by
  have hn : magnitude.toNat ≤ maxMagnitude := Nat.le_of_lt_succ magnitude.toNat_lt
  refine ⟨deltasFrom?_eq 0 us, balancedPair?_eq _, best?_eq hn, Plan.first?_candidates hn, ?_,
    value?_best hn⟩
  intro direction
  exact correction?_best direction magnitude.toNat

end Bounded

end TapeText
