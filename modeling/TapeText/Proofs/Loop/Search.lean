import TapeText.Proofs.Loop.Bounds
import Mathlib.Tactic.Ring

/-!
# TapeText.Proofs.Loop.Search — what the search for a plan finds

The search looks at one plan for each number near the magnitude. Of all the ways
to come near the magnitude by a product, with whatever two factors, the plan that
it returns has the smallest spread, and the smallest correction of those.

It never has to break a tie. Two numbers that are equally far from the magnitude,
one below it and one above, can split into factors with the same gap: 2 is 1 * 2
and 6 is 2 * 3, around 4. But this is the only time it happens, and 4 itself is a
square.

* `mem_candidates_iff` — the plans the search looks at, one for each number;
* `Least`, `best_least` — the plan that it returns has the least key;
* `best_key_le` — no two factors make a plan with a smaller key;
* `eq_one_of_tied`, `Least.unique` — no other plan has the same key;
* `best_exact_and_closest` — the search is exact, and nothing ranks before what it
  finds;
* `best_untied` — it finds the same whatever order it takes and whoever wins a tie.
-/

namespace TapeText.Loop.Plan

variable {n a b c : Nat} {p q : Plan}

/-! ## Candidates -/

/-- The plan for `n` through the number `c`. -/
def through (n c : Nat) : Plan := ⟨(balancedPair c).1, (balancedPair c).2, (n : Int) - c⟩

@[simp] theorem correction_through (n c : Nat) : (through n c).correction = (n : Int) - c := rfl

/-- The number at an offset, as long as it is in range, leads to its plan. -/
theorem atOffset?_eq_through {offset : Int} (hc : (c : Int) = n + offset) (hpos : 0 < c)
    (hmax : c ≤ maxMagnitude) : atOffset? n offset = some (through n c) := by
  have hcast : ((n : Int) + offset).toNat = c := by omega
  have hcorrection : -offset = (n : Int) - c := by omega
  rw [atOffset?_eq_some (by omega), hcast, hcorrection]
  rfl

theorem correction_of_atOffset? {offset : Int} (h : atOffset? n offset = some p) :
    p.correction = -offset := by
  unfold atOffset? at h
  simp only [Option.ite_none_right_eq_some] at h
  rw [← Option.some.inj h.2]

/-- The search looks at each number in range that is near enough. -/
theorem mem_candidates_iff : p ∈ candidates n ↔
    ∃ c : Nat, 0 < c ∧ c ≤ maxMagnitude ∧ ((n : Int) - c).natAbs ≤ reach ∧ p = through n c := by
  unfold candidates
  rw [List.mem_filterMap]
  constructor
  · rintro ⟨offset, hoffset, hp⟩
    -- an offset that leaves the range gives no candidate
    by_cases hrange : 0 < (n : Int) + offset ∧ (n : Int) + offset ≤ maxMagnitude
    · have hcast : ((((n : Int) + offset).toNat : Nat) : Int) = n + offset := by omega
      rw [atOffset?_eq_through hcast (by omega) (by omega)] at hp
      refine ⟨((n : Int) + offset).toNat, by omega, by omega, ?_, (Option.some.inj hp).symm⟩
      rw [mem_offsets_iff] at hoffset
      omega
    · unfold atOffset? at hp
      rw [if_neg hrange] at hp
      simp at hp
  · rintro ⟨c, hpos, hmax, hnear, rfl⟩
    refine ⟨(c : Int) - n, ?_, atOffset?_eq_through (by omega) hpos hmax⟩
    rw [mem_offsets_iff]
    omega

/-- A candidate is known by its correction. -/
theorem eq_of_correction_eq (hp : p ∈ candidates n) (hq : q ∈ candidates n)
    (h : p.correction = q.correction) : p = q := by
  rcases mem_candidates_iff.1 hp with ⟨c, -, -, -, rfl⟩
  rcases mem_candidates_iff.1 hq with ⟨d, -, -, -, rfl⟩
  rw [correction_through, correction_through] at h
  have hcd : c = d := by omega
  rw [hcd]

theorem product_le_of_mem (hp : p ∈ candidates n) : p.rounds * p.stride ≤ maxMagnitude := by
  rcases mem_candidates_iff.1 hp with ⟨c, -, hmax, -, rfl⟩
  have hproduct : (through n c).rounds * (through n c).stride = c := balancedPair_mul c
  rwa [hproduct]

/-! ## The least key -/

/-- A candidate for `n` such that no candidate has a smaller key. -/
structure Least (p : Plan) (n : Nat) : Prop where
  mem : p ∈ candidates n
  key_le : ∀ q ∈ candidates n, p.key ≤ q.key

/-- A scan of the offsets in any order ends with a plan that has the least key. -/
theorem exists_scan?_least (tie : Plan → Plan → Bool) {order : List Int} (hn : n ≤ maxMagnitude)
    (horder : order.Perm offsets) :
    ∃ p, scan? tie (order.filterMap (atOffset? n)) = some p ∧ Least p n := by
  have hperm : (order.filterMap (atOffset? n)).Perm (candidates n) := horder.filterMap _
  cases hscan : scan? tie (order.filterMap (atOffset? n)) with
  | none =>
      -- there is a candidate in range, so the scan finds one
      rw [scan?_eq_none hscan] at hperm
      exact absurd (lt_of_candidates_eq_nil (List.nil_perm.1 hperm)) (Nat.not_lt.2 hn)
  | some p =>
      refine ⟨p, rfl, hperm.mem_iff.1 (scan?_mem hscan), ?_⟩
      intro q hq
      exact scan?_key_le hscan (hperm.mem_iff.2 hq)

/-- Up to the largest magnitude there is a first plan, so the fallback behind the last
one is not needed. -/
theorem first?_candidates (hn : n ≤ maxMagnitude) : first? (candidates n) = some (best n) := by
  unfold best
  cases h : first? (candidates n) with
  | none =>
      rw [first?_eq_scan?] at h
      exact absurd (lt_of_candidates_eq_nil (scan?_eq_none h)) (Nat.not_lt.2 hn)
  | some p => rfl

/-- The plan that the search returns has the least key. -/
theorem best_least (hn : n ≤ maxMagnitude) : Least (best n) n := by
  have hfirst := first?_candidates hn
  refine ⟨first?_mem hfirst, ?_⟩
  intro q hq
  rw [first?_eq_scan?] at hfirst
  exact scan?_key_le hfirst hq

/-- No two factors of a number near the magnitude make a plan with a smaller key. -/
theorem best_key_le (hn : n ≤ maxMagnitude) (ha : 0 < a) (hab : a ≤ b)
    (hmax : a * b ≤ maxMagnitude) (hnear : ((n : Int) - (a * b : Nat)).natAbs ≤ reach) :
    (best n).key ≤ key ⟨a, b, (n : Int) - (a * b : Nat)⟩ := by
  have hpos : 0 < a * b := Nat.mul_pos ha (Nat.lt_of_lt_of_le ha hab)
  have hmem : through n (a * b) ∈ candidates n :=
    mem_candidates_iff.2 ⟨a * b, hpos, hmax, hnear, rfl⟩
  have hspread : (through n (a * b)).spread ≤ b - a := spread_balancedPair_le ha hab
  apply le_trans ((best_least hn).key_le _ hmem)
  rw [key_le_iff]
  rcases Nat.lt_or_eq_of_le hspread with hlt | heq
  · exact .inl hlt
  · exact .inr ⟨heq, Nat.le_refl _⟩

/-- The plan that the search returns reaches the magnitude through a product in
range, within reach. Of all products in range and within reach, of any two
factors in any order, none has a smaller gap between its factors, and none with
the same gap is nearer to the magnitude. -/
theorem best_exact_and_closest (n : Nat) (hn : n ≤ maxMagnitude) :
    (1 ≤ (best n).rounds ∧ (best n).rounds ≤ (best n).stride ∧
      (best n).correction.natAbs ≤ reach ∧ (best n).rounds * (best n).stride ≤ maxMagnitude ∧
      ((best n).rounds : Int) * (best n).stride + (best n).correction = n) ∧
    ∀ a b : Nat, 0 < a → 0 < b → a * b ≤ maxMagnitude →
      (((a * b : Nat) : Int) - n).natAbs ≤ reach →
      toLex ((best n).stride - (best n).rounds, (best n).correction.natAbs) ≤
        toLex (((a : Int) - b).natAbs, (((a * b : Nat) : Int) - n).natAbs) := by
  have hserves := best_serves n
  constructor
  · exact ⟨hserves.rounds_pos, hserves.rounds_le_stride, hserves.correction_le,
      product_le_of_mem (best_least hn).mem, hserves.value_eq⟩
  · intro a b ha hb hmax hnear
    have hflip : (((a * b : Nat) : Int) - n).natAbs = ((n : Int) - (a * b : Nat)).natAbs := by omega
    rw [hflip] at hnear ⊢
    -- the gap and the product do not depend on the order of the factors
    rcases Nat.le_total a b with hab | hba
    · have hgap : ((a : Int) - b).natAbs = b - a := by omega
      rw [hgap]
      exact best_key_le hn ha hab hmax hnear
    · have hgap : ((a : Int) - b).natAbs = a - b := by omega
      rw [Nat.mul_comm] at hmax hnear
      rw [hgap, Nat.mul_comm]
      exact best_key_le hn hb hba hmax hnear

/-- The largest magnitude of all, with nothing in range above it. -/
theorem best_exact_and_closest_at_top : (4294967295 ≤ maxMagnitude ∧ 0 < 65535 ∧ 0 < 65537 ∧
      65535 * 65537 ≤ maxMagnitude ∧
      (((65535 * 65537 : Nat) : Int) - (4294967295 : Nat)).natAbs ≤ reach) ∧
    toLex ((best 4294967295).stride - (best 4294967295).rounds,
      (best 4294967295).correction.natAbs) ≤ toLex (2, 0) := by
  have hrange : 4294967295 ≤ maxMagnitude ∧ 0 < 65535 ∧ 0 < 65537 ∧
      65535 * 65537 ≤ maxMagnitude ∧
      (((65535 * 65537 : Nat) : Int) - (4294967295 : Nat)).natAbs ≤ reach := by decide
  refine ⟨hrange, ?_⟩
  rcases hrange with ⟨hn, ha, hb, hmax, hnear⟩
  exact (best_exact_and_closest 4294967295 hn).2 65535 65537 ha hb hmax hnear

/-! ## Ties -/

/-- Two numbers at the same distance of a third one, within reach and with the
same gap between their factors, are 2 and 6. -/
theorem eq_one_of_tied {u v gap distance : Nat} (hu : 0 < u) (hpos : 0 < distance)
    (hreach : distance ≤ reach) (h : v * (v + gap) = u * (u + gap) + 2 * distance) :
    u = 1 ∧ gap = 1 ∧ distance = 2 := by
  unfold reach at hreach
  have hlt : u < v := by
    apply Nat.lt_of_not_le
    intro hle
    have hmul : v * (v + gap) ≤ u * (u + gap) := Nat.mul_le_mul hle (Nat.add_le_add_right hle gap)
    omega
  rcases Nat.lt_or_ge (u + 1) v with hfar | hnext
  · -- two steps up, the product grows by more than twice the reach
    have hstep : (u + 2) * (u + 2 + gap) = u * (u + gap) + (4 * u + 2 * gap + 4) := by ring
    have hmul : (u + 2) * (u + 2 + gap) ≤ v * (v + gap) :=
      Nat.mul_le_mul hfar (Nat.add_le_add_right hfar gap)
    omega
  · have hv : v = u + 1 := by omega
    have hstep : (u + 1) * (u + 1 + gap) = u * (u + gap) + (2 * u + gap + 1) := by ring
    rw [hv, hstep] at h
    omega

/-- A candidate below the magnitude and one above it, equally far away and with
the same spread, are not the least: the magnitude is a square. -/
theorem Least.not_tied (hp : Least p n) (hq : q ∈ candidates n) (hspread : p.spread = q.spread)
    (hpos : 0 < p.correction) (hopposite : q.correction = -p.correction) : False := by
  have hserves := serves_of_mem hp.mem
  have hbelow := hserves.product_spread
  have habove := (serves_of_mem hq).product_spread
  rw [← hspread] at habove
  have htied : q.rounds * (q.rounds + p.spread) =
      p.rounds * (p.rounds + p.spread) + 2 * p.correction.natAbs := by omega
  rcases eq_one_of_tied hserves.rounds_pos (by omega) hserves.correction_le htied with
    ⟨hone, hgap, htwo⟩
  rw [hone, hgap] at hbelow
  have hfour : n = 4 := by omega
  have hsquare : through n 4 ∈ candidates n := by
    rw [mem_candidates_iff, hfour]
    exact ⟨4, by decide, by decide, by decide, rfl⟩
  -- 4 is 2 * 2 and lies between them, with no spread at all
  have hzero : (through n 4).spread = 0 := by
    have hle : (through n 4).spread ≤ 2 - 2 :=
      spread_balancedPair_le (a := 2) (b := 2) Nat.two_pos (Nat.le_refl 2)
    omega
  rcases key_le_iff.1 (hp.key_le _ hsquare) with hlt | ⟨heq, -⟩
  · omega
  · omega

/-- Only one candidate has the least key. -/
theorem Least.unique (hp : Least p n) (hq : Least q n) : p = q := by
  have hkey := le_antisymm (hp.key_le q hq.mem) (hq.key_le p hp.mem)
  have hspread : p.spread = q.spread := congrArg (fun k => (ofLex k).1) hkey
  have hcorrection : p.correction.natAbs = q.correction.natAbs :=
    congrArg (fun k => (ofLex k).2) hkey
  -- equal keys leave equal corrections, or opposite ones, which do not occur
  rcases Int.natAbs_eq_natAbs_iff.1 hcorrection with heq | hopposite
  · exact eq_of_correction_eq hp.mem hq.mem heq
  · rcases Int.lt_trichotomy p.correction 0 with hneg | hzero | hpos
    · exact (hq.not_tied hp.mem hspread.symm (by omega) hopposite).elim
    · exact eq_of_correction_eq hp.mem hq.mem (by omega)
    · exact (hp.not_tied hq.mem hspread hpos (by omega)).elim

/-- Only one offset leads to a plan with the least key. So a scan of the offsets
finds the plan that the search returns in whatever order it takes them, and
whichever of two plans it would keep in a tie. -/
theorem best_untied (n : Nat) (hn : n ≤ maxMagnitude) :
    (∃! offset, offset ∈ offsets ∧
      ∃ p, atOffset? n offset = some p ∧ ∀ q ∈ candidates n, p.key ≤ q.key) ∧
    ∀ (tie : Plan → Plan → Bool) (order : List Int), order.Perm offsets →
      scan? tie (order.filterMap (atOffset? n)) = some (best n) := by
  have hbest := best_least hn
  constructor
  · rcases List.mem_filterMap.1 hbest.mem with ⟨offset, hoffset, hp⟩
    refine ⟨offset, ⟨hoffset, best n, hp, hbest.key_le⟩, ?_⟩
    rintro other ⟨hother, q, hq, hleast⟩
    have hmem : q ∈ candidates n := List.mem_filterMap.2 ⟨other, hother, hq⟩
    -- an offset is known by its plan, and the plan by having the least key
    have hsame : q = best n := Least.unique ⟨hmem, hleast⟩ hbest
    have hcorrection := correction_of_atOffset? hq
    rw [hsame, correction_of_atOffset? hp] at hcorrection
    omega
  · intro tie order horder
    rcases exists_scan?_least tie hn horder with ⟨p, hp, hleast⟩
    rw [hp, hleast.unique hbest]

/-- Around 4, where two candidates tie, taken from above, with every tie going to
the larger number. -/
theorem best_untied_around_four : (4 ≤ maxMagnitude ∧ [2, 1, 0, -1, -2].Perm offsets) ∧
    scan? (fun p q => q.correction < p.correction) ([2, 1, 0, -1, -2].filterMap (atOffset? 4)) =
      some (best 4) := by
  have hfour : 4 ≤ maxMagnitude := by decide
  have horder : [2, 1, 0, -1, -2].Perm offsets := by decide
  exact ⟨⟨hfour, horder⟩, (best_untied 4 hfour).2 _ _ horder⟩

end TapeText.Loop.Plan
