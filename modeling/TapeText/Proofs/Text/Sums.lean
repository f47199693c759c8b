import TapeText.Text.Units

/-!
# TapeText.Proofs.Text.Sums — units back from their deltas

The register starts at zero and is moved by one delta after the other, so it
passes through the running sums of the deltas. These are the units that the
deltas were taken of; and deltas that never take the register out of the range
of units are the deltas of the units it passes through.

* `sumsFrom`, `sums` — the running sums of a list of deltas;
* `sumsFrom_deltasFrom` — the sums of the deltas are the units;
* `deltasFrom_sumsFrom` — the deltas of the sums are the deltas;
* `deltas_of_sums` — both, from zero on.
-/

namespace TapeText.Text

/-- The running sums of a list of deltas, on top of `total`. -/
def sumsFrom (total : Int) : List Int → List Int
  | [] => []
  | delta :: deltas => (total + delta) :: sumsFrom (total + delta) deltas

def sums (deltas : List Int) : List Int := sumsFrom 0 deltas

/-- The unit of a value, if the value is in the range of units. -/
def unitAt (value : Int) : UInt16 := value.toNat.toUInt16

variable {previous : UInt16} {us : List UInt16} {total : Int}

@[simp] theorem sumsFrom_cons (total delta : Int) (deltas : List Int) :
    sumsFrom total (delta :: deltas) = (total + delta) :: sumsFrom (total + delta) deltas := rfl

/-- A value in the range is kept by its unit. -/
theorem toNat_unitAt {value : Int} (h : 0 ≤ value ∧ value ≤ 65535) :
    ((unitAt value).toNat : Int) = value := by
  have hsize : value.toNat < UInt16.size := by
    have : UInt16.size = 65536 := rfl
    omega
  unfold unitAt
  rw [Nat.toUInt16, UInt16.toNat_ofNat_of_lt' hsize]
  exact Int.toNat_of_nonneg h.1

/-! ## From deltas to units -/

/-- No delta is longer than the range of units. -/
theorem mem_deltasFrom {delta : Int} (h : delta ∈ deltasFrom previous us) :
    -65535 ≤ delta ∧ delta ≤ 65535 := by
  -- induction on the units, with the one before them free
  induction us generalizing previous with
  | nil => simp at h
  | cons u us ih =>
      rw [deltasFrom_cons, List.mem_cons] at h
      rcases h with rfl | hrest
      · have hprevious := previous.toNat_lt
        have hu := u.toNat_lt
        omega
      · exact ih hrest

/-- The register passes through the units whose deltas it is moved by. -/
theorem sumsFrom_deltasFrom (previous : UInt16) (us : List UInt16) :
    sumsFrom previous.toNat (deltasFrom previous us) = us.map fun u => (u.toNat : Int) := by
  -- the first delta takes the register from the unit before to the first unit
  induction us generalizing previous with
  | nil => rfl
  | cons u us ih =>
      have hu : (previous.toNat : Int) + (u.toNat - previous.toNat) = u.toNat := by omega
      rw [deltasFrom_cons, sumsFrom_cons, hu, ih u]
      rfl

/-! ## From units to deltas -/

/-- Deltas that keep the register in the range of units are those of the units
it passes through. -/
theorem deltasFrom_sumsFrom {deltas : List Int} (hprevious : (previous.toNat : Int) = total)
    (h : ∀ sum ∈ sumsFrom total deltas, 0 ≤ sum ∧ sum ≤ 65535) :
    deltasFrom previous ((sumsFrom total deltas).map unitAt) = deltas := by
  -- induction on the deltas: behind the first one the register is at a unit again
  induction deltas generalizing previous total with
  | nil => rfl
  | cons delta deltas ih =>
      rcases List.forall_mem_cons.1 h with ⟨hfirst, hrest⟩
      have hunit := toNat_unitAt hfirst
      have hdelta : ((unitAt (total + delta)).toNat : Int) - previous.toNat = delta := by omega
      rw [sumsFrom_cons, List.map_cons, deltasFrom_cons, hdelta, ih hunit hrest]

/-- There are as many deltas as units, each of them within 65535 either way, and
their running sums are the units. The other way round, deltas whose running sums
stay in the range of units are the deltas of their sums. -/
theorem deltas_of_sums :
    (∀ us : List UInt16, (deltas us).length = us.length ∧
      (∀ delta ∈ deltas us, -65535 ≤ delta ∧ delta ≤ 65535) ∧
      sums (deltas us) = us.map fun u => (u.toNat : Int)) ∧
    ∀ ds : List Int, (∀ sum ∈ sums ds, 0 ≤ sum ∧ sum ≤ 65535) →
      deltas ((sums ds).map unitAt) = ds := by
  constructor
  · intro us
    refine ⟨length_deltas us, ?_, ?_⟩
    · intro delta hdelta
      exact mem_deltasFrom hdelta
    · exact sumsFrom_deltasFrom 0 us
  · intro ds hds
    exact deltasFrom_sumsFrom rfl hds

/-- From one end of the range of units to the other and back, and to half a
surrogate pair. -/
theorem deltas_of_sums_to_the_ends :
    (∀ sum ∈ sums [65535, -65535, 0, 0xD83D], 0 ≤ sum ∧ sum ≤ 65535) ∧
      deltas ((sums [65535, -65535, 0, 0xD83D]).map unitAt) = [65535, -65535, 0, 0xD83D] := by
  have hrange : ∀ sum ∈ sums [65535, -65535, 0, 0xD83D], 0 ≤ sum ∧ sum ≤ 65535 := by decide
  exact ⟨hrange, deltas_of_sums.2 _ hrange⟩

end TapeText.Text
