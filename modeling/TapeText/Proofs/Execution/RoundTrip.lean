import TapeText.Proofs.Execution.Units
import TapeText.Proofs.Text.Decode

/-!
# TapeText.Proofs.Execution.RoundTrip — a program prints its line

On a fresh machine a program finds the register at zero, as it expects, and so
it prints the units of its line themselves. They decode to the line.

* `shifted_zero` — without an offset units are printed as they are;
* `path_fresh`, `atWork_or_done` — the moments of a run on a fresh machine;
* `exists_run_printed` — what a program prints, in units and as a text;
* `run_program_fresh` — the run of a program on a fresh machine.
-/

namespace TapeText.Execution

open Code (Stage)

/-- Cells of both kinds hold a unit as it is. -/
theorem store_unit (kind : CellKind) (unit : UInt16) :
    kind.store (0 + unit.toNat) = unit.toNat := by
  have hunit := unit.toNat_lt
  rw [Int.zero_add]
  apply kind.store_of_unit
  omega

/-- All units of a line can be printed. -/
theorem units_bounds (kind : CellKind) (text : String) :
    ∀ unit ∈ Text.units text, 0 ≤ kind.store (0 + unit.toNat) ∧
      kind.store (0 + unit.toNat) ≤ 65535 := by
  intro unit _
  have hunit := unit.toNat_lt
  rw [store_unit]
  omega

/-- Without an offset the units are printed as they are. -/
theorem shifted_zero (kind : CellKind) (unit : UInt16) : shifted kind 0 unit = unit := by
  unfold shifted
  rw [store_unit, Int.toNat_natCast]
  exact UInt16.ofNat_toNat

/-- What the program for a line leaves behind on a fresh machine. -/
def View.line (text : String) : View :=
  ⟨false, true, 0, Text.terminator.toNat, (Text.units text).toArray⟩

/-- On a fresh machine nothing is shifted, and nothing has been printed before. -/
theorem done_fresh (kind : CellKind) (text : String) :
    View.done (.fresh kind) 0 text = View.line text := by
  have hshifted : (Text.units text).map (shifted kind 0) = Text.units text := by
    have hid : shifted kind 0 = id := funext (shifted_zero kind)
    rw [hid, List.map_id]
  have hkind : (Machine.fresh kind).kind = kind := rfl
  unfold View.done
  rw [hkind, hshifted, Int.zero_add]
  exact congrArg (View.mk false true 0 _) Array.empty_append

variable {kind : CellKind} {program : Loaded} {stage : Stage} {text : String} {m : Machine}

/-- The run of the program for a line on a fresh machine. -/
theorem path_fresh (kind : CellKind) (hload : Loaded.ofCode (stage.code text) = .ok program) :
    ∃ m, Loaded.Path program (LineAtWork program (.fresh kind) 0 stage text)
        (lineCost stage text) ⟨0, .fresh kind⟩ ⟨(stage.code text).length, m⟩ ∧
      Shows (.fresh kind) (View.line text) m := by
  have hpath := path_code hload (ready_fresh kind) (units_bounds kind text)
  rwa [done_fresh] at hpath

/-- A moment of the run is within one of the pieces, or the last one. -/
theorem atWork_or_done (hload : Loaded.ofCode (stage.code text) = .ok program) {n : Nat}
    {s : Moment} (h : program.after n ⟨0, .fresh kind⟩ = some s) :
    LineAtWork program (.fresh kind) 0 stage text s ∨
      (s.ip = (stage.code text).length ∧ Shows (.fresh kind) (View.line text) s.machine) := by
  rcases path_fresh kind hload with ⟨m, hpath, hm⟩
  -- the path leads to the end of the code, and no step goes on from there
  have hend : program.step? ⟨(stage.code text).length, m⟩ = none := by
    apply Loaded.step?_of_size_le
    exact Nat.le_of_eq (Loaded.size_of_ofCode hload)
  rcases hpath.cases_of_after hend h with ⟨-, hwork, -⟩ | ⟨-, rfl⟩
  · exact .inl hwork
  · exact .inr ⟨rfl, hm⟩

/-- A program for a line returns on a fresh machine. -/
theorem exists_run_fresh (kind : CellKind) (stage : Stage) (text : String) {limit : Nat}
    (hlimit : lineCost stage text ≤ limit) :
    ∃ m, (Machine.fresh kind).run (stage.code text) limit = (m, .ok ()) ∧
      Shows (.fresh kind) (View.line text) m := by
  have hrun := exists_run (ready_fresh kind) (units_bounds kind text) hlimit
  rwa [done_fresh] at hrun

/-- What a program for a line has printed: the units of its characters, and a line
feed. -/
theorem printed_of_shows (h : Shows (.fresh kind) (View.line text) m) :
    m.printed.toList = Text.unitsOfChars text.toList ++ [10] := by
  rw [h.printed_eq]
  rfl

/-- Read back as a text, what was printed is the line with its line feed. -/
theorem decode?_of_shows (h : Shows (.fresh kind) (View.line text) m) :
    Text.decode? m.printed.toList = some (text ++ "\n") := by
  rw [printed_of_shows h]
  exact Text.decode?_units text

/-- With enough steps, on cells of either kind and before the pass or behind it, a program
for a line prints it. -/
theorem exists_run_printed (kind : CellKind) (stage : Stage) (text : String) {limit : Nat}
    (hlimit : lineCost stage text ≤ limit) :
    ∃ m, (Machine.fresh kind).run (stage.code text) limit = (m, .ok ()) ∧
      m.printed.toList = Text.unitsOfChars text.toList ++ [10] ∧
      Text.decode? m.printed.toList = some (text ++ "\n") := by
  rcases exists_run_fresh kind stage text hlimit with ⟨m, hrun, hm⟩
  exact ⟨m, hrun, printed_of_shows hm, decode?_of_shows hm⟩

/-- The tape that a program for a line leaves behind. -/
theorem cells_of_shows (h : Shows (.fresh kind) (View.line text) m) : m.cells = #[0, 10] := by
  have hzero : kind.store 0 = 0 := kind.store_of_unit (by decide)
  have hten : kind.store 10 = 10 := kind.store_of_unit (by decide)
  -- a fresh tape has one cell, so the two cells of the view are all there is
  have hcells : m.cells = #[kind.store 0, kind.store 10] :=
    h.cells_eq rfl (Nat.le_succ 1) rfl
  rw [hcells, hzero, hten]

/-- Every program prints the units of its line on a fresh machine, given enough
steps, and leaves the pointer on the counter and the line feed in the
register. -/
theorem run_program_fresh (text : String) (limit : Nat)
    (hlimit : 66823 * (Text.units text).length ≤ limit) :
    ∃ m, (Machine.fresh .unbounded).run (Code.program text) limit = (m, .ok ()) ∧
      m.printed.toList = Text.units text ∧
      Text.decode? m.printed.toList = some (text ++ "\n") ∧
      m.pointer = 0 ∧ m.cells = #[0, 10] := by
  have hcost := Nat.le_trans (lineCost_le .finished text) hlimit
  rcases exists_run_fresh .unbounded .finished text hcost with ⟨m, hrun, hm⟩
  exact ⟨m, hrun, printed_of_shows hm, decode?_of_shows hm, hm.pointer_eq, cells_of_shows hm⟩

/-- A line with a character of value zero and one that takes a surrogate
pair. -/
theorem run_program_fresh_pair :
    66823 * (Text.units "\x00😀").length ≤ 267292 ∧
      ∃ m, (Machine.fresh .unbounded).run (Code.program "\x00😀") 267292 = (m, .ok ()) ∧
        m.printed.toList = Text.units "\x00😀" ∧
        Text.decode? m.printed.toList = some ("\x00😀" ++ "\n") ∧
        m.pointer = 0 ∧ m.cells = #[0, 10] :=
  ⟨by decide, run_program_fresh "\x00😀" 267292 (by decide)⟩

end TapeText.Execution
