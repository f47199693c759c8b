import TapeText.Proofs.Execution.Segment

/-!
# TapeText.Proofs.Execution.Units — a program at work, unit by unit

A program for a list of units runs its pieces one after the other. Each piece
finds the register at the unit before its own and leaves it at its own, so the
whole run is the runs of the pieces put together. If the register starts with
something else than the program expects, all the units it prints are shifted by
the same offset.

* `AtWork` — one of the pieces is running, within its own bounds;
* `Between` — the run has just finished with some of the pieces;
* `path_front`, `path_units` — the run of a part of a program and of all of it,
  with its exact length;
* `programCost_le` — a bound on that length.
-/

namespace TapeText.Execution

open Loaded (Path)
open Loop (Plan)
open Code (Stage isShort piece pieces pieceStart pieceStart_zero pieceStart_cons_succ)
open Text (deltasFrom)

/-- A loop of a plan never counts beyond what every cell can hold. -/
theorem rounds_best_le (n : Nat) : (Plan.best n).rounds ≤ 65535 := by
  have hsquare := (Plan.best_serves n).square_le
  rw [← Nat.not_lt]
  intro hlt
  -- 65536 rounds or more would need a magnitude beyond the largest one
  have hle := Nat.mul_le_mul hlt hlt
  unfold Plan.maxMagnitude at hsquare
  omega

/-- The stretch of a program that moves the register by a delta and prints
it. -/
def pieceSite (program : Loaded) (base : Machine) (first last : Nat) (register delta : Int) :
    Site where
  program := program
  base := base
  first := first
  last := last
  rounds := (Plan.best delta.natAbs).rounds
  rounds_le := rounds_best_le delta.natAbs
  low := min register (register + delta) - Plan.reach
  high := max register (register + delta) + Plan.reach
  target := register + delta

/-- The bounds of the site of a piece leave room for the reach of its loop. -/
theorem spans_pieceSite (program : Loaded) (base : Machine) (first last : Nat)
    (register delta : Int) :
    (pieceSite program base first last register delta).Spans register delta := by
  have hlow : (pieceSite program base first last register delta).low =
      min register (register + delta) - Plan.reach := rfl
  have hhigh : (pieceSite program base first last register delta).high =
      max register (register + delta) + Plan.reach := rfl
  constructor
  · omega
  · omega
  · omega
  · omega
  · exact Nat.le_refl _

/-- The change of the register from one unit to another. -/
def change (before unit : UInt16) : Int := (unit.toNat : Int) - before.toNat

/-- At this moment one of the pieces of a program is running. -/
def AtWork (program : Loaded) (base : Machine) (offset : Int) (parts : List (List Char))
    (before : UInt16) (us : List UInt16) (ip : Nat) (s : Moment) : Prop :=
  ∃ j previous unit, (before :: us)[j]? = some previous ∧ us[j]? = some unit ∧
    (pieceSite program base (ip + pieceStart parts j) (ip + pieceStart parts (j + 1))
      (offset + previous.toNat) (change previous unit)).Busy s

variable {program : Loaded} {base : Machine} {offset : Int} {part : List Char}
variable {parts : List (List Char)} {before unit : UInt16} {us : List UInt16} {ip : Nat}
variable {s : Moment}

theorem atWork_here
    (h : (pieceSite program base ip (ip + part.length) (offset + before.toNat)
      (change before unit)).Busy s) :
    AtWork program base offset (part :: parts) before (unit :: us) ip s := by
  refine ⟨0, before, unit, rfl, rfl, ?_⟩
  rw [pieceStart_cons_succ, pieceStart_zero, pieceStart_zero]
  exact h

theorem atWork_later
    (h : AtWork program base offset parts unit us (ip + part.length) s) :
    AtWork program base offset (part :: parts) before (unit :: us) ip s := by
  rcases h with ⟨j, previous, next, hprevious, hnext, hbusy⟩
  refine ⟨j + 1, previous, next, hprevious, hnext, ?_⟩
  rw [pieceStart_cons_succ, pieceStart_cons_succ, ← Nat.add_assoc, ← Nat.add_assoc]
  exact hbusy

/-! ## Steps -/

/-- How many steps the pieces of a program take together. -/
def programCost (stage : Stage) : (opened : Bool) → List Int → Nat
  | _, [] => 0
  | opened, delta :: deltas =>
    Site.pieceCost opened (stage.joins deltas) delta +
      programCost stage (stage.joins deltas) deltas

/-- The loops of a line of text are short. -/
theorem rounds_best_le_of_le {n : Nat} (h : n ≤ 65535) : (Plan.best n).rounds ≤ 256 := by
  have hsquare := (Plan.best_serves n).square_le_add
  have hreach : Plan.reach = 2 := rfl
  rw [← Nat.not_lt]
  intro hlt
  -- 257 rounds or more would overshoot the distance by more than the reach
  have hle := Nat.mul_le_mul hlt hlt
  omega

/-- No piece takes more steps than this. -/
theorem pieceCost_le {delta : Int} (h : delta.natAbs ≤ 65535) (opened leaves : Bool) :
    Site.pieceCost opened leaves delta ≤ 66823 := by
  unfold Site.pieceCost Site.moveCost
  by_cases hshort : isShort delta = true
  · -- written out, it is a dozen steps and three more at most
    have hlimit : delta.natAbs ≤ 12 := of_decide_eq_true hshort
    rw [if_pos hshort]
    split <;> split <;> omega
  · -- the rounds together are one step per unit of distance, and five more each
    have hserves := Plan.best_serves delta.natAbs
    have hrounds := rounds_best_le_of_le h
    have hproduct := hserves.product
    have hcorrection := hserves.correction_le
    have hreach : Plan.reach = 2 := rfl
    rw [← Int.natCast_mul] at hproduct
    rw [if_neg hshort, Site.loopCost]
    split <;> omega

theorem natAbs_change_le (before unit : UInt16) : (change before unit).natAbs ≤ 65535 := by
  have hbefore := before.toNat_lt
  have hunit := unit.toNat_lt
  unfold change
  omega

/-- A program takes at most so many steps for each unit. -/
theorem programCost_le (stage : Stage) (opened : Bool) (before : UInt16) (us : List UInt16) :
    programCost stage opened (deltasFrom before us) ≤ 66823 * us.length := by
  -- induction on the units; each piece starts where the one before it ended
  induction us generalizing before opened with
  | nil => exact Nat.zero_le _
  | cons unit us ih =>
      have hpiece := pieceCost_le (natAbs_change_le before unit) opened
        (stage.joins (deltasFrom unit us))
      have hrest := ih (stage.joins (deltasFrom unit us)) unit
      rw [Text.deltasFrom_cons, List.length_cons, Nat.mul_succ]
      show Site.pieceCost opened _ (change before unit) + _ ≤ _
      omega

/-! ## The run -/

/-- What a cell of a kind makes of a unit behind an offset, printed. -/
def shifted (kind : CellKind) (offset : Int) (unit : UInt16) : UInt16 :=
  (kind.store (offset + unit.toNat)).toNat.toUInt16

/-- The run of the first piece of a program. -/
theorem path_piece {code back : List Char} (hload : Loaded.ofCode code = .ok program)
    {opened leaves wide : Bool} {printed : Array UInt16} {m : Machine}
    (hopened : opened = true → isShort (change before unit) = true ∧ wide = true)
    (hunit : 0 ≤ base.kind.store (offset + unit.toNat) ∧
      base.kind.store (offset + unit.toNat) ≤ 65535)
    (hahead : program.ahead ip = piece opened leaves (change before unit) ++ back)
    (hm : Shows base ⟨opened, wide, 0, offset + before.toNat, printed⟩ m) :
    ∃ m', Path program
        (AtWork program base offset (piece opened leaves (change before unit) :: parts) before
          (unit :: us) ip)
        (Site.pieceCost opened leaves (change before unit)) ⟨ip, m⟩
        ⟨ip + (piece opened leaves (change before unit)).length, m'⟩ ∧
      Shows base ⟨leaves, true, 0, offset + unit.toNat,
        printed.push (shifted base.kind offset unit)⟩ m' := by
  -- the delta of the piece is the change from one unit to the next, whatever the offset
  have hregister : offset + before.toNat + change before unit = offset + unit.toNat := by
    unfold change
    omega
  have hspans := spans_pieceSite program base ip
    (ip + (piece opened leaves (change before unit)).length)
    (offset + before.toNat) (change before unit)
  have hreads : (pieceSite program base ip
      (ip + (piece opened leaves (change before unit)).length)
      (offset + before.toNat) (change before unit)).Reads ip
        (piece opened leaves (change before unit)) :=
    ⟨Nat.le_refl _, Nat.le_refl _, back, hahead⟩
  rw [← hregister] at hunit
  rcases Site.leads_piece hload hspans rfl hopened hunit hreads m hm with ⟨m', hpath, hm'⟩
  refine ⟨m', ?_, ?_⟩
  · apply hpath.mono
    intro r hr
    exact atWork_here hr
  · rw [hregister] at hm'
    exact hm'

/-- A moment between two pieces of a program: the pieces of the units that are
left stand ahead, and the register holds the unit before them. A pointer on the
register is what the next piece expects. -/
structure Between (program : Loaded) (base : Machine) (offset : Int) (stage : Stage)
    (before : UInt16) (us : List UInt16) (opened wide : Bool) (printed : Array UInt16)
    (s : Moment) : Prop where
  joins_of_opened : opened = true → stage.joins (deltasFrom before us) = true ∧ wide = true
  ahead_eq : program.ahead s.ip = (pieces stage opened (deltasFrom before us)).flatten
  shows : Shows base ⟨opened, wide, 0, offset + before.toNat, printed⟩ s.machine

/-- The run of a program through the pieces of its next units. -/
theorem path_front {stage : Stage} {code : List Char} (hload : Loaded.ofCode code = .ok program)
    {front back : List UInt16} {opened wide : Bool} {printed : Array UInt16}
    (hunits : ∀ unit ∈ front, 0 ≤ base.kind.store (offset + unit.toNat) ∧
      base.kind.store (offset + unit.toNat) ≤ 65535)
    (h : Between program base offset stage before (front ++ back) opened wide printed s) :
    ∃ n leaves t, Path program
        (AtWork program base offset (pieces stage opened (deltasFrom before (front ++ back)))
          before (front ++ back) s.ip) n s t ∧
      Between program base offset stage (front.getLastD before) back leaves
        (wide || !front.isEmpty) (printed ++ (front.map (shifted base.kind offset)).toArray) t ∧
      n + programCost stage leaves (deltasFrom (front.getLastD before) back) =
        programCost stage opened (deltasFrom before (front ++ back)) ∧
      t.ip = s.ip + pieceStart (pieces stage opened (deltasFrom before (front ++ back)))
        front.length ∧
      (pieces stage opened (deltasFrom before (front ++ back))).drop front.length =
        pieces stage leaves (deltasFrom (front.getLastD before) back) := by
  -- induction on the units of the front, with everything that the first piece changes left
  -- free
  induction front generalizing before opened wide printed s with
  | nil =>
      refine ⟨0, opened, s, .refl s, ?_, Nat.zero_add _, rfl, rfl⟩
      simpa using h
  | cons unit front ih =>
      obtain ⟨leaves, hjoins⟩ :
          ∃ leaves, stage.joins (deltasFrom unit (front ++ back)) = leaves := ⟨_, rfl⟩
      have hpieces : pieces stage opened (deltasFrom before (unit :: front ++ back)) =
          piece opened leaves (change before unit) ::
            pieces stage leaves (deltasFrom unit (front ++ back)) := by
        rw [← hjoins]
        rfl
      have hcost : programCost stage opened (deltasFrom before (unit :: front ++ back)) =
          Site.pieceCost opened leaves (change before unit) +
            programCost stage leaves (deltasFrom unit (front ++ back)) := by
        rw [← hjoins]
        rfl
      have hunit := hunits unit List.mem_cons_self
      have hrest : ∀ next ∈ front, 0 ≤ base.kind.store (offset + next.toNat) ∧
          base.kind.store (offset + next.toNat) ≤ 65535 := by
        intro next hnext
        exact hunits next (List.mem_cons_of_mem unit hnext)
      -- a pointer on the register is only expected by a short piece
      have hshort : opened = true → isShort (change before unit) = true ∧ wide = true := by
        intro hopened
        have hbetween := h.joins_of_opened hopened
        exact ⟨Code.isShort_of_joins hbetween.1, hbetween.2⟩
      have hleaves : leaves = true →
          stage.joins (deltasFrom unit (front ++ back)) = true ∧ true = true := by
        intro hleaves
        exact ⟨hjoins.trans hleaves, rfl⟩
      have hahead := h.ahead_eq
      rw [hpieces, List.flatten_cons] at hahead
      rw [hpieces, hcost]
      -- this piece, and then the ones behind it
      rcases path_piece hload hshort hunit hahead h.shows with ⟨m, hpath, hm⟩
      have hnext : Between program base offset stage unit (front ++ back) leaves true
          (printed.push (shifted base.kind offset unit))
          ⟨s.ip + (piece opened leaves (change before unit)).length, m⟩ :=
        ⟨hleaves, Loaded.ahead_add hahead, hm⟩
      rcases ih hrest hnext with ⟨n, last, t, hpath', hbetween, hsteps, hip, hdrop⟩
      refine ⟨Site.pieceCost opened leaves (change before unit) + n, last, t, ?_, ?_, ?_, ?_, ?_⟩
      · apply hpath.trans
        apply hpath'.mono
        intro r hr
        exact atWork_later hr
      · have hwide : (wide || !(unit :: front).isEmpty) = (true || !front.isEmpty) :=
          Bool.or_true wide
        have hprinted : printed ++ ((unit :: front).map (shifted base.kind offset)).toArray =
            printed.push (shifted base.kind offset unit) ++
              (front.map (shifted base.kind offset)).toArray := by
          simp
        rw [List.getLastD_cons, hwide, hprinted]
        exact hbetween
      · rw [List.getLastD_cons, Nat.add_assoc, hsteps]
      · rw [hip, List.length_cons, pieceStart_cons_succ, Nat.add_assoc]
      · rw [List.getLastD_cons, List.length_cons, List.drop_succ_cons, hdrop]

/-- The run of a program from one of its pieces to its end. -/
theorem path_units {stage : Stage} {code : List Char} (hload : Loaded.ofCode code = .ok program)
    {opened wide : Bool} {printed : Array UInt16}
    (hunits : ∀ unit ∈ us, 0 ≤ base.kind.store (offset + unit.toNat) ∧
      base.kind.store (offset + unit.toNat) ≤ 65535)
    (h : Between program base offset stage before us opened wide printed s) :
    ∃ m, Path program
        (AtWork program base offset (pieces stage opened (deltasFrom before us)) before us s.ip)
        (programCost stage opened (deltasFrom before us)) s
        ⟨s.ip + (pieces stage opened (deltasFrom before us)).flatten.length, m⟩ ∧
      Shows base ⟨false, wide || !us.isEmpty, 0, offset + (us.getLastD before).toNat,
        printed ++ (us.map (shifted base.kind offset)).toArray⟩ m := by
  rw [← List.append_nil us] at h
  rcases path_front hload hunits h with ⟨n, leaves, ⟨ip, m⟩, hpath, hbetween, hsteps, hip, -⟩
  rw [List.append_nil] at hpath hsteps hip
  -- behind the last piece the pointer is on the counter
  have hclosed : leaves = false := by
    cases leaves with
    | false => rfl
    | true =>
        have hjoins := (hbetween.joins_of_opened rfl).1
        rw [Text.deltasFrom_nil, Stage.joins_nil] at hjoins
        exact absurd hjoins Bool.false_ne_true
  -- there is one piece for each unit, so behind the last one is the end of the code
  have hlength : (pieces stage opened (deltasFrom before us)).length = us.length := by
    rw [Code.length_pieces, Text.length_deltasFrom]
  have hstart : pieceStart (pieces stage opened (deltasFrom before us)) us.length =
      (pieces stage opened (deltasFrom before us)).flatten.length := by
    rw [← hlength]
    unfold pieceStart
    rw [List.take_length]
  subst hclosed
  rw [hstart] at hip
  obtain rfl : n = programCost stage opened (deltasFrom before us) := hsteps
  obtain rfl : ip = _ := hip
  exact ⟨m, hpath, hbetween.shows⟩

/-! ## Whole programs -/

/-- A machine that a program for a line can start on: its counter is zero, and
its register holds the offset. -/
structure Ready (base : Machine) (offset : Int) : Prop where
  inside : base.Inside
  counter_eq : base.cell base.pointer = 0
  register_eq : base.cell (base.pointer + 1) = base.kind.store offset

/-- A fresh machine is ready, with zero in its register. -/
theorem ready_fresh (kind : CellKind) : Ready (.fresh kind) 0 where
  inside := Machine.inside_fresh kind
  counter_eq := Machine.cell_fresh kind 0
  register_eq := by
    rw [Machine.cell_fresh]
    exact (kind.store_of_unit (by decide)).symm

/-- How many steps the program for a line takes. -/
def lineCost (stage : Stage) (text : String) : Nat :=
  programCost stage false (Text.deltas (Text.units text))

/-- The steps of a program are bounded by the number of its units alone. -/
theorem lineCost_le (stage : Stage) (text : String) :
    lineCost stage text ≤ 66823 * (Text.units text).length :=
  programCost_le stage false 0 (Text.units text)

/-- A unit of the line is being printed. -/
def LineAtWork (program : Loaded) (base : Machine) (offset : Int) (stage : Stage) (text : String)
    (s : Moment) : Prop :=
  AtWork program base offset (stage.parts text) 0 (Text.units text) 0 s

/-- What the program for a line leaves behind. -/
def View.done (base : Machine) (offset : Int) (text : String) : View :=
  ⟨false, true, 0, offset + Text.terminator.toNat,
    base.printed ++ ((Text.units text).map (shifted base.kind offset)).toArray⟩

/-- The first piece of a program finds the pointer on the counter. -/
theorem between_start {stage : Stage} {text : String}
    (hload : Loaded.ofCode (stage.code text) = .ok program) (hready : Ready base offset) :
    Between program base offset stage 0 (Text.units text) false false base.printed
      ⟨0, base⟩ where
  joins_of_opened := by
    intro h
    exact absurd h Bool.false_ne_true
  ahead_eq := by
    rw [Loaded.ahead_eq_drop hload]
    exact (Code.flatten_parts stage text).symm
  shows := by
    have hstart := shows_start hready.inside hready.counter_eq hready.register_eq
    have hoffset : offset + ((0 : UInt16).toNat : Int) = offset := Int.add_zero offset
    rw [hoffset]
    exact hstart

/-- The run of the program for a line, on any machine that is ready for it. -/
theorem path_code {stage : Stage} {text : String}
    (hload : Loaded.ofCode (stage.code text) = .ok program) (hready : Ready base offset)
    (hunits : ∀ unit ∈ Text.units text, 0 ≤ base.kind.store (offset + unit.toNat) ∧
      base.kind.store (offset + unit.toNat) ≤ 65535) :
    ∃ m, Path program (LineAtWork program base offset stage text) (lineCost stage text)
        ⟨0, base⟩ ⟨(stage.code text).length, m⟩ ∧
      Shows base (View.done base offset text) m := by
  rcases path_units hload hunits (between_start hload hready) with ⟨m, hpath, hm⟩
  have hlength : 0 + (stage.parts text).flatten.length = (stage.code text).length := by
    rw [Nat.zero_add, Code.flatten_parts]
  -- the last unit of a line is its terminator, so there is at least one
  have hlast : (Text.units text).getLastD 0 = Text.terminator := by
    unfold Text.units
    exact List.getLastD_concat
  have hwide : (false || !(Text.units text).isEmpty) = true := by
    rw [List.isEmpty_eq_false_iff.2 (Text.units_ne_nil text)]
    rfl
  rw [hlast, hwide] at hm
  refine ⟨m, ?_, hm⟩
  rw [← hlength]
  exact hpath

/-- With enough steps the run of a program for a line returns. -/
theorem exists_run {stage : Stage} {text : String} {limit : Nat} (hready : Ready base offset)
    (hunits : ∀ unit ∈ Text.units text, 0 ≤ base.kind.store (offset + unit.toNat) ∧
      base.kind.store (offset + unit.toNat) ≤ 65535)
    (hlimit : lineCost stage text ≤ limit) :
    ∃ m, base.run (stage.code text) limit = (m, .ok ()) ∧
      Shows base (View.done base offset text) m := by
  rcases Loaded.exists_ofCode (Code.balanced_code stage text) with ⟨program, hload⟩
  rcases path_code hload hready hunits with ⟨m, hpath, hm⟩
  have hend := Nat.le_of_eq (Loaded.size_of_ofCode hload)
  exact ⟨m, hpath.run_eq_ok hload hend hlimit, hm⟩

end TapeText.Execution
