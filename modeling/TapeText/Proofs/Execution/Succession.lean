import TapeText.Proofs.Execution.RoundTrip

/-!
# TapeText.Proofs.Execution.Succession — one program after the other

A program moves the register from where it finds it, so a machine that runs
several programs one after the other prints each line shifted by what the lines
before have left in the register: ten for every terminator. On wrapping cells
this goes on for ever. On unbounded cells it ends at the first unit that is
shifted beyond the largest one, with all units before it printed.

* `Fits` — every unit of a line can be printed behind an offset;
* `path_to_print`, `exists_run_out_of_range` — the run of a program that meets a
  unit which does not fit;
* `Rests` — the machine between two programs, and `rests_run`, what one program
  makes of it;
* `rests_afterLines` — the machine behind any number of programs;
* `runs_of_lines` — what each of them does.
-/

namespace TapeText.Execution

open Loaded (Path)
open Code (Stage InPiece move piece pieces pieceStart)
open Text (deltasFrom units)

/-- Cells of the kind can print every unit behind the offset. -/
def Fits (kind : CellKind) (offset : Int) (us : List UInt16) : Prop :=
  ∀ unit ∈ us, 0 ≤ kind.store (offset + unit.toNat) ∧ kind.store (offset + unit.toNat) ≤ 65535

theorem fits_wrapping16 (offset : Int) (us : List UInt16) : Fits .wrapping16 offset us := by
  intro unit _
  exact CellKind.store_wrapping16_unit (offset + unit.toNat)

theorem fits_unbounded {offset : Nat} {us : List UInt16}
    (h : ∀ unit ∈ us, unit.toNat + offset ≤ 65535) : Fits .unbounded offset us := by
  intro unit hunit
  have hle := h unit hunit
  show 0 ≤ (offset : Int) + unit.toNat ∧ (offset : Int) + unit.toNat ≤ 65535
  omega

variable {program : Loaded} {base m : Machine} {offset : Int} {stage : Stage} {text : String}
variable {before unit : UInt16} {front back us : List UInt16} {opened wide : Bool}
variable {printed : Array UInt16} {s : Moment} {limit : Nat} {kind : CellKind}

/-! ## A unit that does not fit -/

/-- If not all units fit, there is a first one that does not. -/
theorem exists_front_of_not_fits (h : ¬ Fits kind offset us) :
    ∃ front unit back, us = front ++ unit :: back ∧ Fits kind offset front ∧
      ¬ (0 ≤ kind.store (offset + unit.toNat) ∧ kind.store (offset + unit.toNat) ≤ 65535) := by
  -- the search gives the first such unit together with what is before it
  cases hfind : us.find? fun unit =>
      decide (¬ (0 ≤ kind.store (offset + unit.toNat) ∧
        kind.store (offset + unit.toNat) ≤ 65535)) with
  | none =>
      rw [List.find?_eq_none] at hfind
      refine absurd ?_ h
      intro unit hunit
      simpa only [decide_eq_true_eq, Decidable.not_not] using hfind unit hunit
  | some unit =>
      rcases List.find?_eq_some_iff_append.1 hfind with ⟨hunit, front, back, hsplit, hfront⟩
      refine ⟨front, unit, back, hsplit, ?_, of_decide_eq_true hunit⟩
      intro earlier hearlier
      simpa only [Bool.not_eq_true', decide_eq_false_iff_not, Decidable.not_not]
        using hfront earlier hearlier

/-- The move of the next piece, up to its print. -/
theorem path_move {code : List Char} (hload : Loaded.ofCode code = .ok program)
    (h : Between program base offset stage before (unit :: back) opened wide printed s) :
    ∃ m, Path program
        (pieceSite program base s.ip
          (s.ip + (piece opened (stage.joins (deltasFrom unit back)) (change before unit)).length)
          (offset + before.toNat) (change before unit)).Busy
        (Site.moveCost opened (change before unit)) s
        ⟨s.ip + (move opened (change before unit)).length, m⟩ ∧
      Shows base ⟨true, true, 0, offset + unit.toNat, printed⟩ m ∧
      program.code[s.ip + (move opened (change before unit)).length]? = some '.' := by
  obtain ⟨leaves, hjoins⟩ : ∃ leaves, stage.joins (deltasFrom unit back) = leaves := ⟨_, rfl⟩
  have hahead : program.ahead s.ip = piece opened leaves (change before unit) ++
      (pieces stage leaves (deltasFrom unit back)).flatten := by
    rw [h.ahead_eq, ← hjoins]
    rfl
  -- the register is moved from the unit before to this one, both behind the offset
  have hregister : offset + before.toNat + change before unit = offset + unit.toNat := by
    unfold change
    omega
  have hspans := spans_pieceSite program base s.ip
    (s.ip + (piece opened leaves (change before unit)).length)
    (offset + before.toNat) (change before unit)
  have hreads : (pieceSite program base s.ip
      (s.ip + (piece opened leaves (change before unit)).length)
      (offset + before.toNat) (change before unit)).Reads s.ip
        (piece opened leaves (change before unit)) :=
    ⟨Nat.le_refl _, Nat.le_refl _, _, hahead⟩
  have hshort : opened = true → Code.isShort (change before unit) = true ∧ wide = true := by
    intro hopened
    have hbetween := h.joins_of_opened hopened
    exact ⟨Code.isShort_of_joins hbetween.1, hbetween.2⟩
  rcases Site.leads_move hload hspans hshort hreads.left s.machine h.shows with ⟨m, hpath, hm⟩
  rw [hregister] at hm
  rw [hjoins]
  exact ⟨m, hpath, hm, hreads.right.getElem?⟩

/-- The unit before the next one. -/
theorem getElem?_length_cons (before : UInt16) (front back : List UInt16) :
    (before :: (front ++ back))[front.length]? = some (front.getLastD before) := by
  -- induction on the front: its last unit, or the one before it if it is empty
  induction front generalizing before with
  | nil => rfl
  | cons unit front ih =>
      rw [List.length_cons, List.getElem?_cons_succ, List.getLastD_cons]
      exact ih unit

/-- The run of a program up to the print of one of its units. -/
theorem path_to_print (hload : Loaded.ofCode (stage.code text) = .ok program)
    (hready : Ready base offset) (hunits : units text = front ++ unit :: back)
    (hfits : Fits base.kind offset front) :
    ∃ n ip m, Path program (LineAtWork program base offset stage text) n ⟨0, base⟩ ⟨ip, m⟩ ∧
      n < lineCost stage text ∧ program.code[ip]? = some '.' ∧
      InPiece (stage.parts text) front.length ip ∧
      Shows base ⟨true, true, 0, offset + unit.toNat,
        base.printed ++ (front.map (shifted base.kind offset)).toArray⟩ m := by
  have hstart := between_start hload hready
  have hparts : stage.parts text = pieces stage false (deltasFrom 0 (front ++ unit :: back)) := by
    rw [← hunits]
    rfl
  rw [hunits] at hstart
  -- the pieces before the unit, and then the move of its own piece
  obtain ⟨n, leaves, t, hfront, hbetween, hsteps, hip, hdrop⟩ := path_front hload hfits hstart
  rcases path_move hload hbetween with ⟨m, hmove, hm, hprint⟩
  rw [← hparts, Nat.zero_add] at hip
  have hpart : (stage.parts text)[front.length]? =
      some (piece leaves (stage.joins (deltasFrom unit back))
        (change (front.getLastD 0) unit)) := by
    rw [hparts, ← List.head?_drop, hdrop]
    rfl
  have hnext := Code.pieceStart_succ hpart
  have hbefore : ∀ r, AtWork program base offset
      (pieces stage false (deltasFrom 0 (front ++ unit :: back))) 0 (front ++ unit :: back) 0 r →
      LineAtWork program base offset stage text r := by
    intro r hr
    unfold LineAtWork
    rwa [hparts, hunits]
  have hhere : ∀ r, (pieceSite program base t.ip
      (t.ip + (piece leaves (stage.joins (deltasFrom unit back))
        (change (front.getLastD 0) unit)).length)
      (offset + (front.getLastD 0).toNat) (change (front.getLastD 0) unit)).Busy r →
      LineAtWork program base offset stage text r := by
    intro r hr
    refine ⟨front.length, front.getLastD 0, unit, ?_, ?_, ?_⟩
    · rw [hunits]
      exact getElem?_length_cons 0 front (unit :: back)
    · rw [hunits, List.getElem?_append_right (Nat.le_refl _), Nat.sub_self]
      rfl
    · rw [hnext, Nat.zero_add, Nat.zero_add, ← hip]
      exact hr
  -- behind the move there is at least the print itself
  have hbehind : 1 ≤ if stage.joins (deltasFrom unit back) then 1 else 2 := by
    split <;> omega
  refine ⟨_, _, m, (hfront.mono hbefore).trans (hmove.mono hhere), ?_, hprint, ?_, hm⟩
  · have htotal : lineCost stage text = n + (Site.moveCost leaves (change (front.getLastD 0) unit) +
        (if stage.joins (deltasFrom unit back) then 1 else 2) +
          programCost stage (stage.joins (deltasFrom unit back)) (deltasFrom unit back)) := by
      unfold lineCost Text.deltas
      rw [hunits, ← hsteps]
      rfl
    omega
  · have hlength := Site.length_piece leaves (stage.joins (deltasFrom unit back))
      (change (front.getLastD 0) unit)
    constructor <;> omega

/-- On unbounded cells a program stops in front of the first unit that does not
fit behind the offset. All units before it have been printed. -/
theorem exists_run_out_of_range (hready : Ready base offset) (hkind : base.kind = .unbounded)
    (hunits : units text = front ++ unit :: back) (hfits : Fits .unbounded offset front)
    (hlarge : 65535 < offset + unit.toNat) (hlimit : lineCost stage text ≤ limit) :
    ∃ m ip, base.run (stage.code text) limit =
        (m, .error (.cellOutOfRange ip (offset + unit.toNat))) ∧
      (stage.code text)[ip]? = some '.' ∧ InPiece (stage.parts text) front.length ip ∧
      m.printed = base.printed ++ (front.map (shifted .unbounded offset)).toArray := by
  rcases Loaded.exists_ofCode (Code.balanced_code stage text) with ⟨program, hload⟩
  rw [← hkind] at hfits
  obtain ⟨n, ip, m, hpath, hn, hprint, hpiece, hm⟩ := path_to_print hload hready hunits hfits
  have hcurrent : m.current = offset + unit.toNat := by
    rw [hm.current_eq, hkind]
    rfl
  -- an unbounded cell holds the sum as it is, and that is no unit
  have hfault : m.fault? '.' ip = some (.cellOutOfRange ip (offset + unit.toNat)) := by
    rw [← hcurrent]
    exact if_neg (by omega)
  refine ⟨m, ip, ?_, ?_, hpiece, ?_⟩
  · exact hpath.run_eq_error hload hprint hfault (Nat.lt_of_lt_of_le hn hlimit)
  · rwa [Loaded.getElem?_code hload] at hprint
  · rw [hm.printed_eq, hkind]

/-! ## Between two programs -/

/-- The machine has run some programs, and the register has kept what they have
left in it. -/
structure Rests (kind : CellKind) (offset : Int) (m : Machine) : Prop extends
    Ready m offset where
  kind_eq : m.kind = kind
  pointer_eq : m.pointer = 0
  size_le : m.cells.size ≤ 2

theorem rests_fresh (kind : CellKind) : Rests kind 0 (.fresh kind) where
  toReady := ready_fresh kind
  kind_eq := rfl
  pointer_eq := rfl
  size_le := Nat.le_succ 1

/-- One program adds its terminator to the register, and prints its units behind
what the register held before. -/
theorem rests_run (hrests : Rests kind offset base) (hfits : Fits kind offset (units text))
    (hlimit : lineCost .finished text ≤ limit) :
    ∃ m, base.run (Code.program text) limit = (m, .ok ()) ∧ Rests kind (offset + 10) m ∧
      m.printed = base.printed ++ ((units text).map (shifted kind offset)).toArray ∧
      m.cells = #[0, kind.store (offset + 10)] := by
  have hkind := hrests.kind_eq
  rw [← hkind] at hfits
  rcases exists_run hrests.toReady hfits hlimit with ⟨m, hrun, hm⟩
  -- the tape had two cells at most, so what the view shows is all of it
  have hcells := hm.cells_eq hrests.pointer_eq hrests.size_le rfl
  have hzero : kind.store 0 = 0 := kind.store_of_unit (by decide)
  have hkind' := hm.kind_eq.trans hkind
  have hpointer : m.pointer = base.pointer := hm.pointer_eq
  have hprinted := hm.printed_eq
  have hcounter := hm.counter_eq
  have hregister := hm.register_eq
  -- everything is said of the kind of the machine before and of its pointer
  rw [hkind] at hcells hcounter hregister
  rw [← hpointer] at hcounter hregister
  refine ⟨m, hrun, ⟨⟨hm.inside, hcounter.trans hzero, ?_⟩, hkind', ?_, ?_⟩, ?_, ?_⟩
  · rw [hkind']
    exact hregister
  · rw [hpointer, hrests.pointer_eq]
  · rw [hcells]
    exact Nat.le_refl 2
  · rw [hprinted]
    unfold View.done
    rw [hkind]
  · rw [hcells]
    show #[kind.store 0, kind.store (offset + 10)] = _
    rw [hzero]

/-! ## Any number of programs -/

/-- What is left of a machine behind the programs for some lines, each run with
its own limit. -/
def afterLines (m : Machine) (lines : List (String × Nat)) : Machine :=
  lines.foldl (fun m line => (m.run (Code.program line.1) line.2).1) m

variable {lines : List (String × Nat)} {j : Nat}

/-- The machine behind one line more. -/
theorem afterLines_take_succ (m : Machine) (h : lines[j]? = some (text, limit)) :
    afterLines m (lines.take (j + 1)) =
      ((afterLines m (lines.take j)).run (Code.program text) limit).1 := by
  unfold afterLines
  rw [List.take_add_one, h, List.foldl_append]
  rfl

/-- As long as all units fit, the register holds ten for each program. -/
theorem rests_afterLines (kind : CellKind)
    (hlimits : ∀ line ∈ lines, lineCost .finished line.1 ≤ line.2) (hj : j ≤ lines.length)
    (hfits : ∀ i < j, ∀ text limit, lines[i]? = some (text, limit) →
      Fits kind (10 * i : Nat) (units text)) :
    Rests kind (10 * j : Nat) (afterLines (.fresh kind) (lines.take j)) := by
  -- induction on how many programs have run: one more adds its ten
  induction j with
  | zero => exact rests_fresh kind
  | succ j ih =>
      have hearlier : ∀ i < j, ∀ text limit, lines[i]? = some (text, limit) →
          Fits kind (10 * i : Nat) (units text) := by
        intro i hi
        exact hfits i (Nat.lt_succ_of_lt hi)
      have hrests := ih (Nat.le_of_succ_le hj) hearlier
      obtain ⟨⟨text, limit⟩, hline⟩ : ∃ line, lines[j]? = some line :=
        ⟨_, List.getElem?_eq_getElem hj⟩
      have hlimit := hlimits _ (List.mem_of_getElem? hline)
      have hfit := hfits j (Nat.lt_succ_self j) text limit hline
      rcases rests_run hrests hfit hlimit with ⟨m, hrun, hm, -, -⟩
      have hnext : ((10 * (j + 1) : Nat) : Int) = (10 * j : Nat) + 10 := by omega
      rw [afterLines_take_succ _ hline, hrun, hnext]
      exact hm

/-- A program whose units all fit, behind programs whose units all fitted. -/
theorem run_afterLines (kind : CellKind)
    (hlimits : ∀ line ∈ lines, lineCost .finished line.1 ≤ line.2)
    (hline : lines[j]? = some (text, limit))
    (hfits : ∀ i ≤ j, ∀ text limit, lines[i]? = some (text, limit) →
      Fits kind (10 * i : Nat) (units text)) :
    ∃ m, (afterLines (.fresh kind) (lines.take j)).run (Code.program text) limit = (m, .ok ()) ∧
      m.printed = (afterLines (.fresh kind) (lines.take j)).printed ++
        ((units text).map (shifted kind (10 * j : Nat))).toArray ∧
      m.pointer = 0 ∧ m.cells = #[0, kind.store (10 * (j + 1) : Nat)] := by
  have hj : j ≤ lines.length := Nat.le_of_lt (List.getElem?_eq_some_iff.1 hline).1
  -- the machine before this program rests, as all programs before it fitted
  have hearlier : ∀ i < j, ∀ text limit, lines[i]? = some (text, limit) →
      Fits kind (10 * i : Nat) (units text) := by
    intro i hi
    exact hfits i (Nat.le_of_lt hi)
  have hrests := rests_afterLines kind hlimits hj hearlier
  have hlimit := hlimits _ (List.mem_of_getElem? hline)
  have hfit := hfits j (Nat.le_refl j) text limit hline
  rcases rests_run hrests hfit hlimit with ⟨m, hrun, hm, hprinted, hcells⟩
  have hnext : ((10 * (j + 1) : Nat) : Int) = (10 * j : Nat) + 10 := by omega
  rw [hnext]
  exact ⟨m, hrun, hprinted, hm.pointer_eq, hcells⟩

/-- On wrapping cells units are shifted modulo 2^16. -/
theorem shifted_wrapping16 (offset : Nat) (unit : UInt16) :
    shifted .wrapping16 offset unit = ((unit.toNat + offset) % 65536).toUInt16 := by
  have hvalue : ((offset : Int) + unit.toNat) % 65536 =
      ((unit.toNat + offset) % 65536 : Nat) := by omega
  show (((offset : Int) + unit.toNat) % 65536).toNat.toUInt16 = _
  rw [hvalue, Int.toNat_natCast]

/-- On unbounded cells they are shifted without it. -/
theorem shifted_unbounded (offset : Nat) (unit : UInt16) :
    shifted .unbounded offset unit = (unit.toNat + offset).toUInt16 := by
  have hvalue : (offset : Int) + unit.toNat = (unit.toNat + offset : Nat) := by omega
  show ((offset : Int) + unit.toNat).toNat.toUInt16 = _
  rw [hvalue, Int.toNat_natCast]

/-- Programs for any lines run one after the other on a machine that is fresh
before the first of them, each with steps enough. On wrapping cells each one
returns, has printed its units shifted by ten for each program before it, modulo
2^16, and leaves ten more in the register. On unbounded cells the same holds
without the modulus, up to the first unit that is shifted beyond the largest one:
there the program stops at its print, with all units before it printed. -/
theorem runs_of_lines (lines : List (String × Nat))
    (hlimits : ∀ line ∈ lines, lineCost .finished line.1 ≤ line.2) :
    (∀ j text limit, lines[j]? = some (text, limit) →
      ∃ m, (afterLines (.fresh .wrapping16) (lines.take j)).run (Code.program text) limit =
          (m, .ok ()) ∧
        m.printed = (afterLines (.fresh .wrapping16) (lines.take j)).printed ++
          ((units text).map fun unit => ((unit.toNat + 10 * j) % 65536).toUInt16).toArray ∧
        m.pointer = 0 ∧ m.cells = #[0, ((10 * (j + 1) % 65536 : Nat) : Int)]) ∧
    ∀ j text limit, lines[j]? = some (text, limit) →
      (∀ i < j, ∀ text' limit', lines[i]? = some (text', limit') →
        ∀ unit ∈ units text', unit.toNat + 10 * i ≤ 65535) →
      ((∀ unit ∈ units text, unit.toNat + 10 * j ≤ 65535) →
        ∃ m, (afterLines (.fresh .unbounded) (lines.take j)).run (Code.program text) limit =
            (m, .ok ()) ∧
          m.printed = (afterLines (.fresh .unbounded) (lines.take j)).printed ++
            ((units text).map fun unit => (unit.toNat + 10 * j).toUInt16).toArray ∧
          m.pointer = 0 ∧ m.cells = #[0, ((10 * (j + 1) : Nat) : Int)]) ∧
      ∀ front unit back, units text = front ++ unit :: back →
        (∀ earlier ∈ front, earlier.toNat + 10 * j ≤ 65535) → 65535 < unit.toNat + 10 * j →
        ∃ m ip, (afterLines (.fresh .unbounded) (lines.take j)).run (Code.program text) limit =
            (m, .error (.cellOutOfRange ip (unit.toNat + 10 * j : Nat))) ∧
          (Code.program text)[ip]? = some '.' ∧
          InPiece (Stage.finished.parts text) front.length ip ∧
          m.printed = (afterLines (.fresh .unbounded) (lines.take j)).printed ++
            (front.map fun unit => (unit.toNat + 10 * j).toUInt16).toArray := by
  constructor
  · intro j text limit hline
    have hfits : ∀ i ≤ j, ∀ text limit, lines[i]? = some (text, limit) →
        Fits .wrapping16 (10 * i : Nat) (units text) := by
      intro i _ text' _ _
      -- on wrapping cells every unit fits behind any offset
      exact fits_wrapping16 _ (units text')
    have hrun := run_afterLines .wrapping16 hlimits hline hfits
    rwa [funext (shifted_wrapping16 (10 * j))] at hrun
  · intro j text limit hline hearlier
    constructor
    · intro hunits
      have hfits : ∀ i ≤ j, ∀ text limit, lines[i]? = some (text, limit) →
          Fits .unbounded (10 * i : Nat) (units text) := by
        intro i hi text' limit' hline'
        apply fits_unbounded
        -- the lines before fit by assumption, and so does this one
        rcases Nat.lt_or_eq_of_le hi with hlt | rfl
        · exact hearlier i hlt text' limit' hline'
        · rw [hline] at hline'
          obtain ⟨rfl, rfl⟩ := Prod.mk.inj (Option.some.inj hline')
          exact hunits
      have hrun := run_afterLines .unbounded hlimits hline hfits
      rwa [funext (shifted_unbounded (10 * j))] at hrun
    · intro front unit back hsplit hfront hlarge
      have hj : j ≤ lines.length := Nat.le_of_lt (List.getElem?_eq_some_iff.1 hline).1
      have hfits : ∀ i < j, ∀ text limit, lines[i]? = some (text, limit) →
          Fits .unbounded (10 * i : Nat) (units text) := by
        intro i hi text' limit' hline'
        exact fits_unbounded (hearlier i hi text' limit' hline')
      have hrests := rests_afterLines .unbounded hlimits hj hfits
      have hlimit := hlimits _ (List.mem_of_getElem? hline)
      have hvalue : (unit.toNat + 10 * j : Nat) = ((10 * j : Nat) : Int) + unit.toNat := by omega
      -- the run stops at the unit, with the offset that the lines before have left
      have hlarge' : (65535 : Int) < (10 * j : Nat) + unit.toNat := by omega
      have hrun := exists_run_out_of_range hrests.toReady hrests.kind_eq hsplit
        (fits_unbounded hfront) hlarge' hlimit
      rw [funext (shifted_unbounded (10 * j))] at hrun
      rw [hvalue]
      exact hrun

/-- An empty line, and then the largest unit: the ten that the first program has
left in the register take it out of range. -/
theorem runs_of_lines_out_of_range :
    (∀ line ∈ [("", 100000), ("\uFFFF", 200000)], lineCost .finished line.1 ≤ line.2) ∧
      ∃ m ip, (afterLines (.fresh .unbounded) [("", 100000)]).run (Code.program "\uFFFF") 200000 =
          (m, .error (.cellOutOfRange ip 65545)) ∧
        m.printed = #[10] := by
  have hlimits : ∀ line ∈ [("", 100000), ("\uFFFF", 200000)],
      lineCost .finished line.1 ≤ line.2 := by
    refine List.forall_mem_cons.2 ⟨?_, List.forall_mem_singleton.2 ?_⟩
    · exact Nat.le_trans (lineCost_le .finished "") (by decide)
    · exact Nat.le_trans (lineCost_le .finished "\uFFFF") (by decide)
  have hnone : ∀ i < 0, ∀ text limit,
      [("", 100000), ("\uFFFF", 200000)][i]? = some (text, limit) →
        ∀ unit ∈ units text, unit.toNat + 10 * i ≤ 65535 := by
    intro i hi
    exact absurd hi (Nat.not_lt_zero i)
  have hempty : ∀ unit ∈ units "", unit.toNat + 10 * 0 ≤ 65535 :=
    List.forall_mem_singleton.2 (by decide)
  have hfirst : ∀ i < 1, ∀ text limit,
      [("", 100000), ("\uFFFF", 200000)][i]? = some (text, limit) →
        ∀ unit ∈ units text, unit.toNat + 10 * i ≤ 65535 := by
    intro i hi text limit hline
    obtain rfl : i = 0 := by omega
    obtain ⟨rfl, rfl⟩ := Prod.mk.inj (Option.some.inj hline)
    exact hempty
  -- the first program returns, and the second one stops at its first print
  rcases ((runs_of_lines _ hlimits).2 0 "" 100000 rfl hnone).1 hempty with ⟨m, hrun, hprinted, -⟩
  rcases ((runs_of_lines _ hlimits).2 1 "\uFFFF" 200000 rfl hfirst).2 [] 0xFFFF [10] (by decide)
    (List.forall_mem_nil _) (by decide) with ⟨m', ip, hrun', -, -, hprinted'⟩
  have hbefore : afterLines (.fresh .unbounded) [("", 100000)] = m := congrArg Prod.fst hrun
  refine ⟨hlimits, m', ip, hrun', ?_⟩
  rw [hprinted']
  show (afterLines (.fresh .unbounded) [("", 100000)]).printed ++ #[] = #[10]
  rw [hbefore, hprinted]
  rfl

end TapeText.Execution
