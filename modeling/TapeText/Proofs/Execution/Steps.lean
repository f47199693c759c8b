import TapeText.Proofs.Code.Seams
import TapeText.Proofs.Execution.RoundTrip
import TapeText.Proofs.Machine.Limit

/-!
# TapeText.Proofs.Execution.Steps — the exact number of steps

How many steps the program for a line takes does not depend on the machine, and
it is known before the program runs. Each segment has its own number of steps,
from its distance and the plan of its loop; each pair that the pass has dropped
saves two. A run with fewer steps than that stops at its limit, and any other
one returns.

* `segmentCost` — the steps of a whole segment;
* `lineCost_add_seams` — the steps of a program, as a sum over its segments;
* `run_ok_iff`, `run_of_lt` — the limits a program returns with, and the
  others;
* `steps_of_line` — the exact number of steps of the program for a line;
* `runs_of_limits` — the runs of any program with two limits, and what the program for a
  line prints with too few steps.
-/

namespace TapeText.Execution

open Code (Stage isShort seams)
open Loop (Plan)

/-- How many steps a whole segment takes. A short one goes to the register,
takes one step for each unit of its distance, prints, and comes back. A long one
counts up, enters its loop, takes four steps and a stride for each round, goes to
the register, corrects it, prints, and comes back. -/
def segmentCost (delta : Int) : Nat :=
  if isShort delta then delta.natAbs + 3
  else
    let plan := Plan.best delta.natAbs
    plan.rounds * plan.stride + 5 * plan.rounds + plan.correction.natAbs + 4

variable {opened : Bool} {delta : Int}

/-- A piece that no pair was dropped from takes the steps of its segment. -/
theorem pieceCost_whole (delta : Int) : Site.pieceCost false false delta = segmentCost delta := by
  unfold Site.pieceCost Site.moveCost segmentCost
  -- short segments are written out, long ones have a loop
  by_cases hshort : isShort delta = true
  · rw [if_pos hshort, if_pos hshort]
    simp only [Bool.false_eq_true, if_false]
    omega
  · rw [if_neg hshort, if_neg hshort]
    rfl

/-- A piece takes one step less for each move that was dropped from it. -/
theorem pieceCost_add (leaves : Bool) (hopened : opened = true → isShort delta = true) :
    Site.pieceCost opened leaves delta + opened.toNat + leaves.toNat =
      Site.pieceCost false false delta := by
  unfold Site.pieceCost
  -- only short segments are ever opened by the one before
  have hmove : Site.moveCost opened delta + opened.toNat = Site.moveCost false delta := by
    cases opened with
    | false => rfl
    | true =>
        unfold Site.moveCost
        rw [if_pos (hopened rfl), if_pos (hopened rfl)]
        simp only [if_true, Bool.false_eq_true, if_false, Bool.toNat_true]
        omega
  cases leaves with
  | false =>
      simp only [Bool.false_eq_true, if_false, Bool.toNat_false]
      omega
  | true =>
      simp only [Bool.false_eq_true, if_false, if_true, Bool.toNat_true]
      omega

/-- Each dropped pair saves a program two steps. -/
theorem lineCost_add_seams (text : String) :
    lineCost .finished text + 2 * seams (Text.deltas (Text.units text)) =
      ((Text.deltas (Text.units text)).map segmentCost).sum := by
  -- the general count of seams, with the steps as the measure of a piece
  have hsum := @Code.add_seams false (Text.deltas (Text.units text)) (programCost .finished)
    Site.pieceCost (fun _ => rfl) (fun _ _ _ => rfl)
    (fun _ leaves _ hopened => pieceCost_add leaves hopened)
    (fun h => absurd h Bool.false_ne_true)
  have hcost : Site.pieceCost false false = segmentCost := funext pieceCost_whole
  rw [hcost] at hsum
  exact hsum

/-! ## Limits -/

variable {kind : CellKind} {stage : Stage} {text : String} {limit : Nat}

/-- With too few steps a run stops at its limit. -/
theorem run_of_lt (hlimit : limit < lineCost stage text) :
    ((Machine.fresh kind).run (stage.code text) limit).2 =
      .error (.stepLimitExceeded limit) := by
  rcases Loaded.exists_ofCode (Code.balanced_code stage text) with ⟨program, hload⟩
  rcases path_fresh kind hload with ⟨m, hpath, -⟩
  have hend := Nat.le_of_eq (Loaded.size_of_ofCode hload)
  rw [Machine.run_of_ofCode hload]
  -- the limit does not reach the end of the path, so the run is cut on it
  rcases hpath.runFrom_eq hend limit limit with ⟨hle, -⟩ | ⟨-, r, -, hrun⟩
  · exact absurd hlimit (Nat.not_lt.2 hle)
  · exact congrArg Prod.snd hrun

/-- The limits that a program returns with. -/
theorem run_ok_iff :
    ((Machine.fresh kind).run (stage.code text) limit).2 = .ok () ↔
      lineCost stage text ≤ limit := by
  constructor
  · intro hok
    -- with fewer steps the run would have stopped at its limit
    rw [← Nat.not_lt]
    intro hlimit
    rw [run_of_lt hlimit] at hok
    simp at hok
  · intro hlimit
    rcases exists_run_fresh kind stage text hlimit with ⟨m, hrun, -⟩
    rw [hrun]

/-- The program for a line takes exactly as many steps as its segments together,
less two for each pair that was dropped between them, on cells of both kinds. It
returns if its limit is at least that, and otherwise uses up its limit. -/
theorem steps_of_line (kind : CellKind) (text : String) :
    ∃ total,
      total + 2 * seams (Text.deltas (Text.units text)) =
        ((Text.deltas (Text.units text)).map segmentCost).sum ∧
      total ≤ 66823 * (Text.deltas (Text.units text)).length ∧
      ∀ limit,
        (((Machine.fresh kind).run (Code.program text) limit).2 = .ok () ↔ total ≤ limit) ∧
        (limit < total →
          ((Machine.fresh kind).run (Code.program text) limit).2 =
            .error (.stepLimitExceeded limit)) := by
  have hle := lineCost_le .finished text
  rw [← Text.length_deltas] at hle
  refine ⟨lineCost .finished text, lineCost_add_seams text, hle, ?_⟩
  intro limit
  constructor
  · exact @run_ok_iff kind .finished text limit
  · intro hlimit
    exact @run_of_lt kind .finished text limit hlimit

/-! ## Too few steps -/

/-- With any limit the program for a line prints nothing but the beginning of the units of
the line. -/
theorem printed_prefix_units (kind : CellKind) (stage : Stage) (text : String) (limit : Nat) :
    ((Machine.fresh kind).run (stage.code text) limit).1.printed.toList <+:
      Text.unitsOfChars text.toList ++ [10] := by
  -- compared with a limit that is enough, and no smaller than this one
  have hcost : lineCost stage text ≤ max limit (lineCost stage text) := Nat.le_max_right _ _
  rcases exists_run_printed kind stage text hcost with ⟨m, hrun, hprinted, -⟩
  have hprefix := Machine.printed_prefix_of_le (.fresh kind) (stage.code text)
    (Nat.le_max_left limit (lineCost stage text))
  rw [hrun] at hprefix
  rw [← hprinted]
  exact hprefix

/-- The limit of a run only cuts it short. A run that has not used up its limit is the run
with every larger one. A run that has used it up has stopped where the run with the larger
one is after as many instructions, and that one goes on from there. So the program for a
line prints the beginning of the units of its characters and of a line feed with too few
steps, and all of them otherwise, which are read back as the line. -/
theorem runs_of_limits :
    (∀ (m : Machine) (code : List Char) (limit larger : Nat), limit ≤ larger →
      ((∀ l, (m.run code limit).2 ≠ .error (.stepLimitExceeded l)) →
        m.run code larger = m.run code limit) ∧
      ∀ l, (m.run code limit).2 = .error (.stepLimitExceeded l) →
        ∃ program s, CutAt m code limit larger program s) ∧
    ∀ (kind : CellKind) (stage : Stage) (text : String) (limit : Nat),
      ∃ m, m.printed.toList <+: Text.unitsOfChars text.toList ++ [10] ∧
        ((Machine.fresh kind).run (stage.code text) limit =
            (m, .error (.stepLimitExceeded limit)) ∨
          (Machine.fresh kind).run (stage.code text) limit = (m, .ok ()) ∧
            m.printed.toList = Text.unitsOfChars text.toList ++ [10] ∧
            Text.decode? m.printed.toList = some (text ++ "\n")) := by
  refine ⟨?_, ?_⟩
  · intro m code limit larger hle
    constructor
    · intro hdone
      exact Machine.run_eq_of_le hle hdone
    · intro l hcut
      exact Machine.exists_cutAt hle hcut
  · intro kind stage text limit
    have hprefix := printed_prefix_units kind stage text limit
    -- either too few steps for the line, or enough
    rcases Nat.lt_or_ge limit (lineCost stage text) with hlt | hge
    · exact ⟨_, hprefix, .inl (Prod.ext rfl (run_of_lt hlt))⟩
    · rcases exists_run_printed kind stage text hge with ⟨m, hrun, hprinted, hdecode⟩
      rw [hrun] at hprefix
      exact ⟨m, hprefix, .inr ⟨hrun, hprinted, hdecode⟩⟩

/-- A program that never ends, cut short after five steps and after nine; and one that ends
after two steps, with a limit that no run could use up. -/
theorem runs_of_limits_endless :
    (∃ program s, CutAt (.fresh .wrapping16) "+[.]".toList 5 9 program s ∧
        s.machine.printed = #[1, 1]) ∧
      (Machine.fresh .wrapping16).run "+.".toList (2 ^ 64) =
        (⟨.wrapping16, #[1], 0, #[1], 0, 1⟩, .ok ()) := by
  have hcut : (Machine.fresh .wrapping16).run "+[.]".toList 5 =
      (⟨.wrapping16, #[1], 0, #[1, 1], 0, 1⟩, .error (.stepLimitExceeded 5)) := rfl
  have hreturns : (Machine.fresh .wrapping16).run "+.".toList 2 =
      (⟨.wrapping16, #[1], 0, #[1], 0, 1⟩, .ok ()) := rfl
  constructor
  · rcases (runs_of_limits.1 _ _ 5 9 (by decide)).2 5 (congrArg Prod.snd hcut) with
      ⟨program, s, hs⟩
    -- the machine of the cut is that of the shorter run
    have hmachine := congrArg Prod.fst (hs.stops.symm.trans hcut)
    exact ⟨program, s, hs, congrArg Machine.printed hmachine⟩
  · rw [(runs_of_limits.1 _ _ 2 (2 ^ 64) (by decide)).1 ?_]
    · exact hreturns
    · intro l hlimit
      rw [hreturns] at hlimit
      cases hlimit

end TapeText.Execution
