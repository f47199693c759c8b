import TapeText.Proofs.Execution.RoundTrip

/-!
# TapeText.Proofs.Execution.Overshoot — two cells, and how far they go

On a fresh machine a program for a line of text only ever uses its two cells.
Its counter stays small, and its register stays between the unit printed last
and the one to be printed next, but for the reach of a correction: a loop may
overshoot its target by two. At every print the register holds the unit itself.

* `TwoCells`, `Approaches`, `Prints` — what holds of the machine at a moment;
* `range_of_after` — the values met on the way bound the range of a machine;
* `moments_of_line` — the bounds, at every moment of every run.
-/

namespace TapeText.Execution

open Loop (Plan)
open Code (Stage pieces InPiece)
open Text (units)

/-- The machine has a counter and at most one cell behind it. -/
structure TwoCells (m : Machine) : Prop where
  pointer_le : m.pointer ≤ 1
  size_le : m.cells.size ≤ 2
  counter_nonneg : 0 ≤ m.cell 0
  counter_le : m.cell 0 ≤ 256

/-- The register is on its way from one unit to another. -/
structure Approaches (previous unit : UInt16) (m : Machine) : Prop where
  low_le : min (previous.toNat : Int) unit.toNat - 2 ≤ m.cell 1
  le_high : m.cell 1 ≤ max (previous.toNat : Int) unit.toNat + 2

/-- The machine is about to print a unit. -/
structure Prints (unit : UInt16) (m : Machine) : Prop where
  pointer_eq : m.pointer = 1
  counter_eq : m.cell 0 = 0
  register_eq : m.cell 1 = unit.toNat

/-- No cell of the machine has held a value further away. -/
structure Ranges (low high : Int) (m : Machine) : Prop where
  low_le : low ≤ m.low
  le_high : m.high ≤ high

/-! ## A unit at a time -/

variable {program : Loaded} {previous unit : UInt16} {first last n : Nat} {s t : Moment}
variable {stage : Stage} {text : String} {m : Machine} {v : View}

/-- A view whose values are within small bounds needs two cells only. -/
theorem twoCells_of_shows (h : Shows (.fresh .unbounded) v m)
    (hcounter : 0 ≤ v.counter ∧ v.counter ≤ 256) : TwoCells m := by
  have hpointer : m.pointer = 0 + if v.onRegister then 1 else 0 := h.pointer_eq
  have hsize : m.cells.size = if v.wide then 2 else 1 := h.size_eq
  have hcell : m.cell 0 = v.counter := h.counter_eq
  constructor
  · rw [hpointer]
    split <;> omega
  · rw [hsize]
    split <;> omega
  · rw [hcell]
    exact hcounter.1
  · rw [hcell]
    exact hcounter.2

/-- The bounds of a stretch, read off the machine. -/
theorem bounds_of_busy
    (h : (pieceSite program (.fresh .unbounded) first last (0 + previous.toNat)
      (change previous unit)).Busy s) :
    TwoCells s.machine ∧ Approaches previous unit s.machine ∧
      (program.code[s.ip]? = some '.' → Prints unit s.machine) := by
  rcases h.allows with ⟨c, v, hc, hm, hallows⟩
  have hregister : s.machine.cell 1 = v.register := hm.register_eq
  have hrounds := rounds_best_le_of_le (natAbs_change_le previous unit)
  have hcounter : v.counter ≤ ((Plan.best (change previous unit).natAbs).rounds : Int) :=
    hallows.counter_le
  have hlow : min (0 + (previous.toNat : Int)) (0 + previous.toNat + change previous unit) - 2 ≤
      v.register := hallows.low_le
  have hhigh : v.register ≤
      max (0 + (previous.toNat : Int)) (0 + previous.toNat + change previous unit) + 2 :=
    hallows.le_high
  have htarget : 0 + (previous.toNat : Int) + change previous unit = unit.toNat := by
    unfold change
    omega
  -- the change from one unit to the next leads exactly to the next unit
  rw [htarget, Int.zero_add] at hlow hhigh
  refine ⟨?_, ⟨?_, ?_⟩, ?_⟩
  · exact twoCells_of_shows hm ⟨hallows.counter_nonneg, by omega⟩
  · rw [hregister]
    exact hlow
  · rw [hregister]
    exact hhigh
  · -- at a print there is nothing left to correct
    intro hprint
    have hdot : c = '.' := Option.some.inj (hc.symm.trans hprint)
    rcases hallows.on_target hdot with ⟨hon, hzero, hvalue⟩
    have hpointer : s.machine.pointer = 0 + if v.onRegister then 1 else 0 := hm.pointer_eq
    have hcell : s.machine.cell 0 = v.counter := hm.counter_eq
    have hvalue' : v.register = 0 + previous.toNat + change previous unit := hvalue
    constructor
    · rw [hpointer, hon]
      rfl
    · rw [hcell, hzero]
    · rw [hregister, hvalue', htarget]

/-- Every position of a program that is at work lies in one of its pieces, and
the bounds of that piece hold. -/
theorem bounds_of_atWork (h : LineAtWork program (.fresh .unbounded) 0 stage text s) :
    ∃ j previous unit, (0 :: units text)[j]? = some previous ∧ (units text)[j]? = some unit ∧
      InPiece (stage.parts text) j s.ip ∧ TwoCells s.machine ∧
      Approaches previous unit s.machine ∧
      (program.code[s.ip]? = some '.' → Prints unit s.machine) := by
  rcases h with ⟨j, previous, unit, hprevious, hunit, hbusy⟩
  have hfirst : 0 + Code.pieceStart (stage.parts text) j ≤ s.ip := hbusy.first_le
  have hlast : s.ip < 0 + Code.pieceStart (stage.parts text) (j + 1) := hbusy.lt_last
  rw [Nat.zero_add] at hfirst hlast
  exact ⟨j, previous, unit, hprevious, hunit, ⟨hfirst, hlast⟩, bounds_of_busy hbusy⟩

/-! ## All moments of a run -/

/-- The values that the moments of a run find under the pointer are all that
its range can be widened by. -/
theorem range_of_after {low high : Int} (hinside : s.machine.Inside)
    (hrange : Ranges low high s.machine)
    (hcurrent : ∀ k r, program.after k s = some r →
      low ≤ r.machine.current ∧ r.machine.current ≤ high)
    (h : program.after n s = some t) : t.machine.Inside ∧ Ranges low high t.machine := by
  -- by induction on the moments; a machine notes a value when it stores it, and what it stores
  -- is under the pointer then
  refine Loaded.after_induction
    (Q := fun r => r.machine.Inside ∧ Ranges low high r.machine) ⟨hinside, hrange⟩ ?_ h
  rintro k r u hr hstep ⟨hinside', hlow, hhigh⟩
  -- the instruction stores nothing but what is under the pointer behind it
  have hvalue := hcurrent (k + 1) u (Loaded.after_succ_eq_some_iff.2 ⟨r, hr, hstep⟩)
  rcases Loaded.exists_of_step? hstep with ⟨c, -, -, rfl⟩
  rcases Machine.range_execute hinside' c with ⟨hlow', hhigh'⟩
  refine ⟨hinside'.execute c, ?_, ?_⟩
  · show low ≤ (r.machine.execute c).low
    have hvalue' : low ≤ (r.machine.execute c).current := hvalue.1
    omega
  · show (r.machine.execute c).high ≤ high
    have hvalue' : (r.machine.execute c).current ≤ high := hvalue.2
    omega

/-- Whatever a moment has under the pointer is close to a unit. -/
theorem current_of_twoCells (h : TwoCells m) (hregister : -2 ≤ m.cell 1 ∧ m.cell 1 ≤ 65537) :
    -2 ≤ m.current ∧ m.current ≤ 65537 := by
  have hpointer := h.pointer_le
  have hnonneg := h.counter_nonneg
  have hle := h.counter_le
  rw [Machine.current_eq_cell]
  -- the pointer is on the counter or on the register
  rcases Nat.le_one_iff_eq_zero_or_eq_one.1 hpointer with hzero | hone
  · rw [hzero]
    omega
  · rw [hone]
    exact hregister

/-- Both cells at every moment: the counter is small, and the register is within two of
a unit. -/
theorem cells_of_after (hload : Loaded.ofCode (stage.code text) = .ok program)
    (h : program.after n ⟨0, .fresh .unbounded⟩ = some s) :
    TwoCells s.machine ∧ -2 ≤ s.machine.cell 1 ∧ s.machine.cell 1 ≤ 65537 := by
  rcases atWork_or_done hload h with hwork | ⟨-, hm⟩
  · -- at work between two units, both of them below 2^16
    rcases bounds_of_atWork hwork with ⟨j, previous, unit, -, -, -, htwo, happroaches, -⟩
    have hprevious := previous.toNat_lt
    have hunit := unit.toNat_lt
    have hlow := happroaches.low_le
    have hhigh := happroaches.le_high
    refine ⟨htwo, ?_, ?_⟩ <;> omega
  · -- at the end the terminator is still in the register
    have hregister : s.machine.cell 1 = 0 + (Text.terminator.toNat : Int) := hm.register_eq
    have hten : Text.terminator.toNat = 10 := rfl
    have hzero : (0 : Int) ≤ 0 ∧ (0 : Int) ≤ 256 := by decide
    refine ⟨twoCells_of_shows hm hzero, ?_, ?_⟩ <;> omega

/-- No run widens the range of the machine beyond the units and the overshoot. -/
theorem ranges_of_after (hload : Loaded.ofCode (stage.code text) = .ok program)
    (h : program.after n ⟨0, .fresh .unbounded⟩ = some s) : Ranges (-2) 65537 s.machine := by
  -- the range of a fresh machine is from zero to zero
  have hstart : Ranges (-2) 65537 (Machine.fresh .unbounded) := ⟨by decide, by decide⟩
  have hcurrent : ∀ k r, program.after k ⟨0, .fresh .unbounded⟩ = some r →
      -2 ≤ r.machine.current ∧ r.machine.current ≤ 65537 := by
    intro k r hr
    rcases cells_of_after hload hr with ⟨htwo, hregister⟩
    exact current_of_twoCells htwo hregister
  exact (range_of_after (Machine.inside_fresh _) hstart hcurrent h).2

/-- In each piece the register is on its way from the unit before to the unit
of the piece. -/
theorem approaches_of_after (hload : Loaded.ofCode (stage.code text) = .ok program)
    (h : program.after n ⟨0, .fresh .unbounded⟩ = some s) {j : Nat}
    (hprevious : (0 :: units text)[j]? = some previous) (hunit : (units text)[j]? = some unit)
    (hpiece : InPiece (stage.parts text) j s.ip) : Approaches previous unit s.machine := by
  rcases atWork_or_done hload h with hwork | ⟨hend, -⟩
  · obtain ⟨k, previous', unit', hprevious', hunit', hpiece', -, happroaches, -⟩ :=
      bounds_of_atWork hwork
    -- a position lies in one piece only, so it is the same pair of units
    obtain rfl := hpiece.unique hpiece'
    rw [hprevious] at hprevious'
    rw [hunit] at hunit'
    obtain rfl := Option.some.inj hprevious'
    obtain rfl := Option.some.inj hunit'
    exact happroaches
  · -- there is no piece at the end of the program
    have hle := Code.pieceStart_le (stage.parts text) (j + 1)
    have hlt := hpiece.2
    rw [Code.flatten_parts] at hle
    omega

/-- A print finds the unit of its piece in the register. -/
theorem prints_of_after (hload : Loaded.ofCode (stage.code text) = .ok program)
    (h : program.after n ⟨0, .fresh .unbounded⟩ = some s)
    (hprint : program.code[s.ip]? = some '.') :
    ∃ j unit, (units text)[j]? = some unit ∧ InPiece (stage.parts text) j s.ip ∧
      Prints unit s.machine := by
  rcases atWork_or_done hload h with hwork | ⟨hend, -⟩
  · rcases bounds_of_atWork hwork with ⟨j, previous, unit, -, hunit, hpiece, -, -, hprints⟩
    exact ⟨j, unit, hunit, hpiece, hprints hprint⟩
  · -- there is no instruction at the end of the program
    rw [Loaded.getElem?_of_length_le hload (Nat.le_of_eq hend.symm)] at hprint
    simp at hprint

/-- Every moment of a run of the program for a line, before or behind the pass,
keeps to two cells and to bounds that depend on the two units it is between;
and a run has no other fault than that it is given too few steps. -/
theorem moments_of_line (stage : Stage) (text : String) :
    ∃ program, Loaded.ofCode (stage.code text) = .ok program ∧
      (∀ n s, program.after n ⟨0, .fresh .unbounded⟩ = some s →
        TwoCells s.machine ∧ Ranges (-2) 65537 s.machine ∧
        (∀ j previous unit, (0 :: units text)[j]? = some previous →
          (units text)[j]? = some unit → InPiece (stage.parts text) j s.ip →
          Approaches previous unit s.machine) ∧
        (program.code[s.ip]? = some '.' →
          ∃ j unit, (units text)[j]? = some unit ∧ InPiece (stage.parts text) j s.ip ∧
            Prints unit s.machine)) ∧
      ∀ limit, ∃ m, Ranges (-2) 65537 m ∧
        ((Machine.fresh .unbounded).run (stage.code text) limit = (m, .ok ()) ∨
          (Machine.fresh .unbounded).run (stage.code text) limit =
            (m, .error (.stepLimitExceeded limit))) := by
  rcases Loaded.exists_ofCode (Code.balanced_code stage text) with ⟨program, hload⟩
  refine ⟨program, hload, ?_, ?_⟩
  · intro n s h
    refine ⟨(cells_of_after hload h).1, ranges_of_after hload h, ?_, ?_⟩
    · intro j previous unit hprevious hunit hpiece
      exact approaches_of_after hload h hprevious hunit hpiece
    · intro hprint
      exact prints_of_after hload h hprint
  · intro limit
    rcases path_fresh .unbounded hload with ⟨m, hpath, -⟩
    have hend := Nat.le_of_eq (Loaded.size_of_ofCode hload)
    unfold Machine.run
    rw [hload]
    -- either the limit is enough for the whole path, or the run is cut on it
    rcases hpath.runFrom_eq hend limit limit with ⟨-, hrun⟩ | ⟨-, r, hr, hrun⟩
    · exact ⟨m, ranges_of_after hload hpath.after_eq, .inl hrun⟩
    · exact ⟨r.machine, ranges_of_after hload hr, .inr hrun⟩

end TapeText.Execution
