import TapeText.Proofs.Execution.Succession
import TapeText.Proofs.Machine.Lockstep

/-!
# TapeText.Proofs.Execution.Wrapping — 16-bit cells are enough

The brackets of a program for a line of text only test its counter, and the
counter never gets as far as 2^16. So a machine with wrapping cells runs the
program in lockstep with an unbounded one, even where a loop takes the register
below zero or beyond the largest unit.

* `testsAlike_of_ready` — what the brackets of a program test, wherever it starts;
* `lockstep_of_line` — the two runs, step by step and at their ends.
-/

namespace TapeText.Execution

open Code (Stage)

variable {program : Loaded} {stage : Stage} {text : String} {n : Nat} {s : Moment}
variable {base : Machine} {offset : Int}

/-- The brackets of a program test a counter, and that is no multiple of 65536
other than zero. -/
theorem testsAlike_of_atWork
    (h : LineAtWork program base offset stage text s) : program.TestsAlike s := by
  intro c hc hbracket hzero
  rcases h with ⟨j, previous, unit, -, -, hbusy⟩
  rcases hbusy.allows with ⟨c', v, hc', hm, hallows⟩
  obtain rfl : c' = c := Option.some.inj (hc'.symm.trans hc)
  have hon := hallows.on_counter hbracket
  -- a bracket of a site tests the counter, and the site bounds it below 2^16
  have hcurrent := Site.current_eq_counter hm hallows.toWithin hon
  have hnonneg := hallows.counter_nonneg
  have hle := hallows.counter_le
  have hrounds := (pieceSite program base
    (0 + Code.pieceStart (stage.parts text) j) (0 + Code.pieceStart (stage.parts text) (j + 1))
    (offset + previous.toNat) (change previous unit)).rounds_le
  omega

/-- There is no bracket at the end of a program. -/
theorem testsAlike_of_length_le (hload : Loaded.ofCode (stage.code text) = .ok program)
    (h : (stage.code text).length ≤ s.ip) : program.TestsAlike s := by
  intro c hc
  rw [Loaded.getElem?_of_length_le hload h] at hc
  simp at hc

/-- The brackets of a program tell nothing apart on any machine whose counter is
zero, also where the program stops in front of a unit that it cannot print. -/
theorem testsAlike_of_ready (hload : Loaded.ofCode (stage.code text) = .ok program)
    (hready : Ready base offset) (h : program.after n ⟨0, base⟩ = some s) :
    program.TestsAlike s := by
  -- either all units can be printed, or there is a first one that cannot
  by_cases hfits : Fits base.kind offset (Text.units text)
  · -- the run comes to the end of the program
    rcases path_code hload hready hfits with ⟨m, hpath, -⟩
    have hsize := Nat.le_of_eq (Loaded.size_of_ofCode hload)
    have hend : program.step? ⟨(stage.code text).length, m⟩ = none :=
      Loaded.step?_of_size_le hsize
    rcases hpath.cases_of_after hend h with ⟨-, hwork, -⟩ | ⟨-, rfl⟩
    · exact testsAlike_of_atWork hwork
    · exact testsAlike_of_length_le hload (Nat.le_refl _)
  · -- the run stops at the print of the first unit that does not fit
    rcases exists_front_of_not_fits hfits with ⟨front, unit, back, hunits, hfront, hunit⟩
    obtain ⟨k, ip, m, hpath, -, hprint, -, hm⟩ := path_to_print hload hready hunits hfront
    have hcurrent : m.current = base.kind.store (offset + unit.toNat) := hm.current_eq
    rw [← hcurrent] at hunit
    have hend : program.step? ⟨ip, m⟩ = none :=
      Loaded.step?_of_fault hprint (if_neg hunit)
    rcases hpath.cases_of_after hend h with ⟨-, hwork, -⟩ | ⟨-, rfl⟩
    · exact testsAlike_of_atWork hwork
    · intro c hc hbracket
      rw [hprint] at hc
      -- the last moment is at the print, which tests nothing
      obtain rfl := Option.some.inj hc
      simp at hbracket

theorem testsAlike_of_after (hload : Loaded.ofCode (stage.code text) = .ok program)
    (h : program.after n ⟨0, .fresh .unbounded⟩ = some s) : program.TestsAlike s :=
  testsAlike_of_ready hload (ready_fresh .unbounded) h

theorem lockstep_fresh : Lockstep ⟨0, .fresh .wrapping16⟩ ⟨0, .fresh .unbounded⟩ :=
  ⟨rfl, Wraps.fresh⟩

/-- The runs of a program for a line end in the same way. -/
theorem run_fresh_lockstep (hload : Loaded.ofCode (stage.code text) = .ok program)
    (limit : Nat) :
    ((Machine.fresh .wrapping16).run (stage.code text) limit).2 =
        ((Machine.fresh .unbounded).run (stage.code text) limit).2 ∧
      Wraps ((Machine.fresh .wrapping16).run (stage.code text) limit).1
        ((Machine.fresh .unbounded).run (stage.code text) limit).1 := by
  rcases path_fresh .unbounded hload with ⟨m, hpath, -⟩
  have hsize := Nat.le_of_eq (Loaded.size_of_ofCode hload)
  -- all prints of the unbounded run are in range
  have hrange : ¬ IsRangeFault (Machine.runFrom program limit limit 0 (.fresh .unbounded)).2 := by
    rintro ⟨ip, value, hfault⟩
    rcases hpath.runFrom_eq hsize limit limit with ⟨-, hrun⟩ | ⟨-, r, -, hrun⟩
    · rw [hrun] at hfault
      cases hfault
    · rw [hrun] at hfault
      cases hfault
  -- and no bracket of it tells the cells apart
  have htest : program.TestsAlikeFor limit ⟨0, .fresh .unbounded⟩ := by
    intro k r _ hr
    exact testsAlike_of_after hload hr
  rw [Machine.run_of_ofCode hload, Machine.run_of_ofCode hload]
  exact Loaded.lockstep_runFrom lockstep_fresh limit limit htest hrange

/-- The program for a line, before or behind the pass, runs in lockstep on
wrapping and on unbounded cells, to the same end. So it prints the units of the
characters of its line and a line feed on wrapping cells too, which is read back as
the line. -/
theorem lockstep_of_line (stage : Stage) (text : String) :
    ∃ program, Loaded.ofCode (stage.code text) = .ok program ∧
      (∀ n, Option.Rel Lockstep (program.after n ⟨0, .fresh .wrapping16⟩)
        (program.after n ⟨0, .fresh .unbounded⟩)) ∧
      (∀ limit,
        ((Machine.fresh .wrapping16).run (stage.code text) limit).2 =
            ((Machine.fresh .unbounded).run (stage.code text) limit).2 ∧
          Wraps ((Machine.fresh .wrapping16).run (stage.code text) limit).1
            ((Machine.fresh .unbounded).run (stage.code text) limit).1) ∧
      ∀ limit, 66823 * (Text.units text).length ≤ limit →
        ∃ m, (Machine.fresh .wrapping16).run (stage.code text) limit = (m, .ok ()) ∧
          m.printed.toList = Text.unitsOfChars text.toList ++ [10] ∧
          Text.decode? m.printed.toList = some (text ++ "\n") := by
  rcases Loaded.exists_ofCode (Code.balanced_code stage text) with ⟨program, hload⟩
  refine ⟨program, hload, ?_, ?_, ?_⟩
  · intro n
    rcases path_fresh .unbounded hload with ⟨m, hpath, -⟩
    have hend := Nat.le_of_eq (Loaded.size_of_ofCode hload)
    apply Loaded.rel_after lockstep_fresh _ hpath hend
    -- what the brackets test is known for every moment of the unbounded run
    intro k r hr
    exact testsAlike_of_after hload hr
  · intro limit
    exact run_fresh_lockstep hload limit
  · intro limit hlimit
    have hcost := Nat.le_trans (lineCost_le stage text) hlimit
    exact exists_run_printed .wrapping16 stage text hcost

end TapeText.Execution
