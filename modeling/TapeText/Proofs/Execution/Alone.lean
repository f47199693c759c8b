import TapeText.Proofs.Execution.Steps

/-!
# TapeText.Proofs.Execution.Alone — a segment on its own

A segment is a program too. On a machine whose counter is zero, wherever its
pointer is and whatever its register holds, it moves the register by its
distance and prints it. The distance may be far larger than any between two
units of a line, because a loop never counts beyond what every cell can hold.

* `Holds`, `Near` — the machine behind a segment, and on the way;
* `path_to_print_alone`, `path_alone` — the run up to the print, and all of it;
* `near_of_after` — how far the two cells go on the way;
* `run_segment` — the run on wrapping and on unbounded cells.
-/

namespace TapeText.Execution

open Loaded (Path)
open Code (Direction move piece segment segmentBy)
open Loop (Plan)

/-- The machine is another one but for the register. -/
structure Holds (base : Machine) (value : Int) (m : Machine) : Prop where
  kind_eq : m.kind = base.kind
  size_eq : m.cells.size = max base.cells.size (base.pointer + 2)
  counter_eq : m.cell base.pointer = 0
  register_eq : m.cell (base.pointer + 1) = value
  cell_eq : ∀ i, i ≠ base.pointer → i ≠ base.pointer + 1 → m.cell i = base.cell i

/-- The counter is a unit, and the register holds what its cell makes of a value
that is no farther from the first one than that. -/
structure Near (base : Machine) (register : Int) (distance : Nat) (m : Machine) : Prop where
  counter_nonneg : 0 ≤ m.cell base.pointer
  counter_le : m.cell base.pointer ≤ 65535
  register_near : ∃ value : Int, (value - register).natAbs ≤ distance ∧
    m.cell (base.pointer + 1) = base.kind.store value

variable {base m : Machine} {program : Loaded} {register delta value : Int} {s : Moment}
variable {v : View} {first last limit n : Nat}

/-! ## Views -/

/-- A machine that is back on its counter holds what its register shows. -/
theorem holds_of_shows (h : Shows base v m) (hwide : v.wide = true) (hcounter : v.counter = 0)
    (hvalue : base.kind.store v.register = value) : Holds base value m := by
  have hsize := h.size_eq
  have hzero := h.counter_eq
  rw [hwide] at hsize
  rw [hcounter, base.kind.store_of_unit (by decide)] at hzero
  exact ⟨h.kind_eq, hsize, hzero, h.register_eq.trans hvalue, h.cell_eq⟩

/-- A counter that is a unit is held as it is. -/
theorem near_of_shows {distance : Nat} (h : Shows base v m)
    (hcounter : 0 ≤ v.counter ∧ v.counter ≤ 65535)
    (hregister : (v.register - register).natAbs ≤ distance) : Near base register distance m := by
  have hcell := h.counter_eq
  rw [base.kind.store_of_unit hcounter] at hcell
  refine ⟨?_, ?_, v.register, hregister, h.register_eq⟩
  · rw [hcell]
    exact hcounter.1
  · rw [hcell]
    exact hcounter.2

/-- The bounds of a stretch that moves the register by a delta. -/
theorem near_of_busy (h : (pieceSite program base first last register delta).Busy s) :
    Near base register (delta.natAbs + Plan.reach) s.machine := by
  -- the stretch bounds the register between start and target, widened by the reach: at most
  -- the delta and the reach away from the start
  rcases h.allows with ⟨c, v, -, hm, hallows⟩
  have hnonneg := hallows.counter_nonneg
  have hcounter : v.counter ≤ ((Plan.best delta.natAbs).rounds : Int) := hallows.counter_le
  have hrounds := rounds_best_le delta.natAbs
  have hlow : min register (register + delta) - Plan.reach ≤ v.register := hallows.low_le
  have hhigh : v.register ≤ max register (register + delta) + Plan.reach := hallows.le_high
  exact near_of_shows hm (by omega) (by omega)

/-! ## A direction and a distance -/

theorem natAbs_sign_mul_natCast (direction : Direction) (magnitude : Nat) :
    (direction.sign * (magnitude : Int)).natAbs = magnitude :=
  (Site.natAbs_sign_mul direction magnitude).trans (Int.natAbs_natCast magnitude)

/-- A direction and a distance make up a delta. Without a distance the direction
does not matter. -/
theorem segmentBy_sign_mul (magnitude : Nat) (direction : Direction) :
    segmentBy (direction.sign * magnitude) = segment magnitude direction := by
  unfold segmentBy
  rw [natAbs_sign_mul_natCast]
  rcases Nat.eq_zero_or_pos magnitude with rfl | hpos
  · -- at distance zero both directions print the same code
    cases direction <;> rfl
  · have hdirection : Direction.ofDelta (direction.sign * magnitude) = direction := by
      unfold Direction.ofDelta
      cases direction with
      | up => exact if_neg (by simp only [Direction.sign]; omega)
      | down => exact if_pos (by simp only [Direction.sign]; omega)
    rw [hdirection]

/-- Every segment is balanced, so it can be loaded on its own. -/
theorem exists_ofCode_segmentBy (delta : Int) :
    ∃ program, Loaded.ofCode (segmentBy delta) = .ok program :=
  Loaded.exists_ofCode (Code.balanced_segmentBy delta)

/-! ## The run -/

/-- A segment is the only piece of its program. -/
theorem reads_alone (hload : Loaded.ofCode (segmentBy delta) = .ok program) (base : Machine)
    (register : Int) :
    (pieceSite program base 0 (segmentBy delta).length register delta).Reads 0
      (piece false false delta) := by
  rw [Code.piece_eq_segmentBy]
  refine ⟨Nat.le_refl 0, Nat.le_of_eq (Nat.zero_add _), [], ?_⟩
  rw [List.append_nil]
  exact Loaded.ahead_eq_drop hload 0

/-- A segment on its own finds the pointer on the counter. -/
theorem opened_of_alone (delta : Int) :
    false = true → Code.isShort delta = true ∧ false = true := by
  intro h
  exact absurd h Bool.false_ne_true

/-- The run of a segment up to its print. -/
theorem path_to_print_alone (hload : Loaded.ofCode (segmentBy delta) = .ok program)
    (hready : Ready base register) :
    ∃ n ip m, Path program (fun s => Near base register (delta.natAbs + Plan.reach) s.machine) n
        ⟨0, base⟩ ⟨ip, m⟩ ∧ n < segmentCost delta ∧ program.code[ip]? = some '.' ∧
      Shows base ⟨true, true, 0, register + delta, base.printed⟩ m := by
  have hspans := spans_pieceSite program base 0 (segmentBy delta).length register delta
  have hreads := reads_alone hload base register
  have hstart := shows_start hready.inside hready.counter_eq hready.register_eq
  rcases Site.leads_move hload hspans (opened_of_alone delta) hreads.left base hstart with
    ⟨m, hpath, hm⟩
  refine ⟨_, _, m, hpath.mono fun r hr => near_of_busy hr, ?_, hreads.right.getElem?, hm⟩
  -- the print and the step back to the counter are still to come
  rw [← pieceCost_whole]
  exact Nat.lt_add_of_pos_right Nat.two_pos

/-- The run of a segment whose value can be printed. -/
theorem path_alone (hload : Loaded.ofCode (segmentBy delta) = .ok program)
    (hready : Ready base register)
    (hunit : 0 ≤ base.kind.store (register + delta) ∧
      base.kind.store (register + delta) ≤ 65535) :
    ∃ m, Path program (fun s => Near base register (delta.natAbs + Plan.reach) s.machine)
        (segmentCost delta) ⟨0, base⟩ ⟨(segmentBy delta).length, m⟩ ∧
      Shows base ⟨false, true, 0, register + delta,
        base.printed.push (base.kind.store (register + delta)).toNat.toUInt16⟩ m := by
  have hspans := spans_pieceSite program base 0 (segmentBy delta).length register delta
  have hreads := reads_alone hload base register
  have hstart := shows_start hready.inside hready.counter_eq hready.register_eq
  rcases Site.leads_piece hload hspans rfl (opened_of_alone delta) hunit hreads base hstart with
    ⟨m, hpath, hm⟩
  rw [pieceCost_whole, Code.piece_eq_segmentBy, Nat.zero_add] at hpath
  exact ⟨m, hpath.mono fun r hr => near_of_busy hr, hm⟩

/-- A print of anything but a unit is a fault. -/
theorem fault_of_print (hm : Shows base ⟨true, true, 0, register + delta, base.printed⟩ m)
    (hout : ¬ (0 ≤ base.kind.store (register + delta) ∧
      base.kind.store (register + delta) ≤ 65535)) (ip : Nat) :
    m.fault? '.' ip = some (.cellOutOfRange ip (base.kind.store (register + delta))) := by
  have hcurrent : m.current = base.kind.store (register + delta) := hm.current_eq
  rw [← hcurrent] at hout ⊢
  exact if_neg hout

/-- At every moment of the run of a segment its two cells are near to where they
were, or to where they are going. -/
theorem near_of_after (hload : Loaded.ofCode (segmentBy delta) = .ok program)
    (hready : Ready base register) (h : program.after n ⟨0, base⟩ = some s) :
    Near base register (delta.natAbs + Plan.reach) s.machine := by
  have hzero : (0 : Int) ≤ 0 ∧ (0 : Int) ≤ 65535 := by decide
  have hdistance : (register + delta - register).natAbs ≤ delta.natAbs + Plan.reach := by omega
  -- two runs to consider, as the print may be a fault; each is followed by its path and
  -- nothing comes behind the last moment
  by_cases hunit : 0 ≤ base.kind.store (register + delta) ∧
      base.kind.store (register + delta) ≤ 65535
  · -- the run comes to the end of the segment
    rcases path_alone hload hready hunit with ⟨m, hpath, hm⟩
    have hend : program.step? ⟨(segmentBy delta).length, m⟩ = none := by
      apply Loaded.step?_of_size_le
      exact Nat.le_of_eq (Loaded.size_of_ofCode hload)
    rcases hpath.cases_of_after hend h with ⟨-, hnear, -⟩ | ⟨-, rfl⟩
    · exact hnear
    · exact near_of_shows hm hzero hdistance
  · -- the run stops in front of the print
    rcases path_to_print_alone hload hready with ⟨k, ip, m, hpath, -, hprint, hm⟩
    have hend : program.step? ⟨ip, m⟩ = none := by
      unfold Loaded.step?
      rw [hprint]
      simp only [fault_of_print hm hunit]
    rcases hpath.cases_of_after hend h with ⟨-, hnear, -⟩ | ⟨-, rfl⟩
    · exact hnear
    · exact near_of_shows hm hzero hdistance

/-- With enough steps, a segment whose value is a unit runs to its end and has printed
it. -/
theorem exists_run_alone (hready : Ready base register)
    (hunit : 0 ≤ base.kind.store (register + delta) ∧
      base.kind.store (register + delta) ≤ 65535)
    (hvalue : base.kind.store (register + delta) = value) (hlimit : segmentCost delta ≤ limit) :
    ∃ m, base.run (segmentBy delta) limit = (m, .ok ()) ∧ m.pointer = base.pointer ∧
      Holds base value m ∧ m.printed = base.printed.push value.toNat.toUInt16 := by
  rcases exists_ofCode_segmentBy delta with ⟨program, hload⟩
  rcases path_alone hload hready hunit with ⟨m, hpath, hm⟩
  have hend := Nat.le_of_eq (Loaded.size_of_ofCode hload)
  have hholds := holds_of_shows hm rfl rfl hvalue
  -- what is printed is the stored value, not the sum
  have hprinted := hm.printed_eq
  rw [hvalue] at hprinted
  exact ⟨m, hpath.run_eq_ok hload hend hlimit, hm.pointer_eq, hholds, hprinted⟩

/-- With enough steps, a segment whose value is no unit stops at its own print, with the
value in the register. -/
theorem exists_run_alone_out_of_range (hready : Ready base register)
    (hout : ¬ (0 ≤ base.kind.store (register + delta) ∧
      base.kind.store (register + delta) ≤ 65535))
    (hvalue : base.kind.store (register + delta) = value) (hlimit : segmentCost delta ≤ limit) :
    ∃ m ip, base.run (segmentBy delta) limit = (m, .error (.cellOutOfRange ip value)) ∧
      (segmentBy delta)[ip]? = some '.' ∧ m.pointer = base.pointer + 1 ∧ Holds base value m ∧
      m.printed = base.printed := by
  rcases exists_ofCode_segmentBy delta with ⟨program, hload⟩
  -- the path ends in front of the print, which is the fault
  rcases path_to_print_alone hload hready with ⟨n, ip, m, hpath, hn, hprint, hm⟩
  have hfault := fault_of_print hm hout ip
  rw [hvalue] at hfault
  refine ⟨m, ip, ?_, ?_, hm.pointer_eq, holds_of_shows hm rfl rfl hvalue, hm.printed_eq⟩
  · exact hpath.run_eq_error hload hprint hfault (Nat.lt_of_lt_of_le hn hlimit)
  · rwa [Loaded.getElem?_code hload] at hprint

/-- A segment of any distance, on any machine whose counter is zero. Wrapping
cells print where the register gets to modulo 2^16. Unbounded cells print the
value itself if it is a unit, and otherwise stop in front of the print. In each
case nothing but the register has changed. On the way the counter is always a
unit, and the register goes no farther than the distance and the reach of a
correction. -/
theorem run_segment (base : Machine) (register value : Int) (magnitude : Nat)
    (direction : Direction) (limit : Nat) (hinside : base.Inside)
    (hcounter : base.cell base.pointer = 0)
    (hregister : base.cell (base.pointer + 1) = register)
    (hvalue : register + direction.sign * magnitude = value)
    (hlimit : segmentCost (direction.sign * magnitude) ≤ limit) :
    (base.kind = .wrapping16 → 0 ≤ register → register ≤ 65535 →
      ∃ m, base.run (segment magnitude direction) limit = (m, .ok ()) ∧
        m.pointer = base.pointer ∧ Holds base (value % 65536) m ∧
        m.printed = base.printed.push (value % 65536).toNat.toUInt16) ∧
    (base.kind = .unbounded → 0 ≤ value → value ≤ 65535 →
      ∃ m, base.run (segment magnitude direction) limit = (m, .ok ()) ∧
        m.pointer = base.pointer ∧ Holds base value m ∧
        m.printed = base.printed.push value.toNat.toUInt16) ∧
    (base.kind = .unbounded → value < 0 ∨ 65535 < value →
      ∃ m ip, base.run (segment magnitude direction) limit =
          (m, .error (.cellOutOfRange ip value)) ∧
        (segment magnitude direction)[ip]? = some '.' ∧ m.pointer = base.pointer + 1 ∧
        Holds base value m ∧ m.printed = base.printed) ∧
    (base.kind = .unbounded ∨ (0 ≤ register ∧ register ≤ 65535) →
      ∃ program, Loaded.ofCode (segment magnitude direction) = .ok program ∧
        ∀ n s, program.after n ⟨0, base⟩ = some s →
          Near base register (magnitude + Plan.reach) s.machine) := by
  have hsegment := segmentBy_sign_mul magnitude direction
  have hready : base.kind = .unbounded ∨ (0 ≤ register ∧ register ≤ 65535) →
      Ready base register := by
    intro hheld
    refine ⟨hinside, hcounter, hregister.trans ?_⟩
    -- an unbounded register holds anything, a wrapping one a unit
    rcases hheld with hkind | hunit
    · rw [hkind]
      rfl
    · exact (base.kind.store_of_unit hunit).symm
  rw [← hsegment]
  refine ⟨?_, ?_, ?_, ?_⟩
  · intro hkind hlow hhigh
    have hstore : base.kind.store (register + direction.sign * magnitude) = value % 65536 := by
      rw [hvalue, hkind]
      rfl
    -- a remainder is always a unit, so the print is never a fault
    have hnonneg := Int.emod_nonneg value (by decide : (65536 : Int) ≠ 0)
    have hlt := Int.emod_lt_of_pos value (by decide : (0 : Int) < 65536)
    exact exists_run_alone (hready (.inr ⟨hlow, hhigh⟩)) (by omega) hstore hlimit
  · intro hkind hlow hhigh
    have hstore : base.kind.store (register + direction.sign * magnitude) = value := by
      rw [hvalue, hkind]
      rfl
    exact exists_run_alone (hready (.inl hkind)) (by omega) hstore hlimit
  · intro hkind hout
    have hstore : base.kind.store (register + direction.sign * magnitude) = value := by
      rw [hvalue, hkind]
      rfl
    exact exists_run_alone_out_of_range (hready (.inl hkind)) (by omega) hstore hlimit
  · intro hheld
    rcases exists_ofCode_segmentBy (direction.sign * magnitude) with ⟨program, hload⟩
    refine ⟨program, hload, ?_⟩
    intro n s h
    have hnear := near_of_after hload (hready hheld) h
    rwa [natAbs_sign_mul_natCast] at hnear

/-- A distance of more than 2^16 downwards, in the middle of a tape: wrapping
cells come out at a unit, and unbounded ones below zero. -/
theorem run_segment_far_down :
    (∃ m, Machine.run ⟨.wrapping16, #[7, 0, 5, 3], 1, #[], 0, 7⟩ (segment 70000 .down)
        (segmentCost (-70000)) = (m, .ok ()) ∧
      m.printed = #[61077]) ∧
    ∃ m ip, Machine.run ⟨.unbounded, #[7, 0, 5, 3], 1, #[], 0, 7⟩ (segment 70000 .down)
        (segmentCost (-70000)) = (m, .error (.cellOutOfRange ip (-69995))) ∧
      Holds ⟨.unbounded, #[7, 0, 5, 3], 1, #[], 0, 7⟩ (-69995) m := by
  have hinside : 1 < 4 := by decide
  have hwrapping := (run_segment ⟨.wrapping16, #[7, 0, 5, 3], 1, #[], 0, 7⟩ 5 (-69995) 70000 .down
    (segmentCost (-70000)) hinside rfl rfl rfl (Nat.le_refl _)).1 rfl (by decide) (by decide)
  have hunbounded := (run_segment ⟨.unbounded, #[7, 0, 5, 3], 1, #[], 0, 7⟩ 5 (-69995) 70000 .down
    (segmentCost (-70000)) hinside rfl rfl rfl (Nat.le_refl _)).2.2.1 rfl (.inl (by decide))
  rcases hwrapping with ⟨m, hrun, -, -, hprinted⟩
  rcases hunbounded with ⟨m', ip, hrun', -, -, hholds, -⟩
  exact ⟨⟨m, hrun, hprinted⟩, m', ip, hrun', hholds⟩

end TapeText.Execution
