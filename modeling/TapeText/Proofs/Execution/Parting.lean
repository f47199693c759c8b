import TapeText.Proofs.Execution.Wrapping

/-!
# TapeText.Proofs.Execution.Parting — where wrapping cells can be told apart

There are two places where a program can tell wrapping cells from unbounded ones: a
bracket takes a multiple of 65536 for zero, and a print finds a unit where there is none.
A program that keeps clear of the first runs in lockstep on both kinds of cells, whatever
it is and wherever it starts, and ends in the same way on both, unless it comes to the
second: there the unbounded run stops and the wrapping one goes on. A program for a line
of text keeps clear of the first wherever its counter starts at zero.

* `TestsAlikeWithin` — no bracket of a run tells the cells apart;
* `EndAlike`, `PartAt` — two runs with the same moments and the same end, and two runs of
  which one goes on where the other one stops;
* `runs_of_wraps` — any program, on any two such machines.
-/

namespace TapeText

/-- In the first `limit` steps of a run, no bracket tests a multiple of 65536 other than
zero. -/
def Machine.TestsAlikeWithin (u : Machine) (code : List Char) (limit : Nat) : Prop :=
  ∀ program, Loaded.ofCode code = .ok program → program.TestsAlikeFor limit ⟨0, u⟩

namespace Execution

open Code (Stage)
open Text (units)

/-- The runs of a program on two machines execute the same instructions, and end with the
same result on machines that hold the same cells modulo 2^16. -/
structure EndAlike (code : List Char) (limit : Nat) (w u : Machine) : Prop where
  result_eq : (w.run code limit).2 = (u.run code limit).2
  wraps : Wraps (w.run code limit).1 (u.run code limit).1
  moments : ∀ program, Loaded.ofCode code = .ok program → ∀ n, n ≤ limit →
    Option.Rel Lockstep (program.after n ⟨0, w⟩) (program.after n ⟨0, u⟩)

/-- Two runs come to the same print by the same instructions. The second one stops there,
and the first one prints what the second one holds modulo 2^16 and goes on. -/
structure PartAt (code : List Char) (program : Loaded) (limit n : Nat) (w u : Machine)
    (r s : Moment) : Prop where
  loads : Loaded.ofCode code = .ok program
  lt_limit : n < limit
  moments : ∀ k, k ≤ n → Option.Rel Lockstep (program.after k ⟨0, w⟩) (program.after k ⟨0, u⟩)
  left : program.after n ⟨0, w⟩ = some r
  right : program.after n ⟨0, u⟩ = some s
  lockstep : Lockstep r s
  print : program.code[s.ip]? = some '.'
  stops : u.run code limit = (s.machine, .error (.cellOutOfRange s.ip s.machine.current))
  next : program.after (n + 1) ⟨0, w⟩ = some ⟨s.ip + 1, r.machine.print⟩
  printed : ∃ unit : UInt16, (unit.toNat : Int) = s.machine.current % 65536 ∧
    r.machine.print.printed = s.machine.printed.push unit
  goes_on : w.run code limit =
    Machine.runFrom program limit (limit - (n + 1)) (s.ip + 1) r.machine.print

variable {program : Loaded} {code : List Char} {limit : Nat} {w u : Machine}

/-! ## Any program -/

/-- Programs whose brackets tell nothing apart end alike, if all their prints are in
range. -/
theorem endAlike_of_wraps (h : Wraps w u) (htest : u.TestsAlikeWithin code limit)
    (hrange : ¬ IsRangeFault (u.run code limit).2) : EndAlike code limit w u := by
  have hlock : Lockstep ⟨0, w⟩ ⟨0, u⟩ := ⟨rfl, h⟩
  -- a program may be rejected when it is loaded; otherwise the lockstep of the steps is that
  -- of the runs
  cases hload : Loaded.ofCode code with
  | error fault =>
      -- neither run gets to its first instruction
      constructor
      · rw [Machine.run_of_ofCode_error hload, Machine.run_of_ofCode_error hload]
      · rw [Machine.run_of_ofCode_error hload, Machine.run_of_ofCode_error hload]
        exact h
      · intro program hprogram
        rw [hload] at hprogram
        cases hprogram
  | ok program =>
      rw [Machine.run_of_ofCode hload] at hrange
      have hends := Loaded.lockstep_runFrom hlock limit limit (htest program hload) hrange
      constructor
      · rw [Machine.run_of_ofCode hload, Machine.run_of_ofCode hload]
        exact hends.1
      · rw [Machine.run_of_ofCode hload, Machine.run_of_ofCode hload]
        exact hends.2
      · intro program' hprogram n hn
        rw [hload] at hprogram
        cases hprogram
        exact Loaded.rel_after_of_le hlock limit limit (htest program hload) hrange hn

/-- A wrapping cell is printed as the unit that it holds. -/
theorem exists_unit_of_print (h : Wraps w u) :
    ∃ unit : UInt16, (unit.toNat : Int) = u.current % 65536 ∧
      w.print.printed = u.printed.push unit := by
  have hunit := h.current_unit
  refine ⟨w.current.toNat.toUInt16, ?_, ?_⟩
  · rw [Text.toNat_toUInt16 (by omega), ← h.current_eq]
    omega
  · rw [← h.printed_eq]
    rfl

/-- Where the unbounded run stops at a print, the wrapping one goes on. -/
theorem exists_partAt (h : Wraps w u) (htest : u.TestsAlikeWithin code limit)
    (hrange : IsRangeFault (u.run code limit).2) :
    ∃ program n r s, PartAt code program limit n w u r s := by
  have hlock : Lockstep ⟨0, w⟩ ⟨0, u⟩ := ⟨rfl, h⟩
  -- the run has come to a fault of its own, so the program was loaded
  by_cases hbalanced : Brackets.Balanced code
  · rcases Loaded.exists_ofCode hbalanced with ⟨program, hload⟩
    rw [Machine.run_of_ofCode hload] at hrange
    rcases Loaded.lockstep_cases hlock limit limit (htest program hload) with
      ⟨n, s, r, hn, hs, hr, hlock', ⟨result, hresult, -, hu, -⟩ | ⟨hlt, hprint, hu⟩⟩
    · rw [hu] at hrange
      -- the two runs cannot end alike, as the unbounded one is out of range
      exact absurd hrange hresult
    · have hbefore := (htest program hload).mono hn
      have hdot : program.code[r.ip]? = some '.' := by
        rw [hlock'.ip_eq]
        exact hprint
      -- a wrapping cell is always a unit, so the print is no fault there
      have hstep := Loaded.step?_eq_some hdot (hlock'.wraps.fault?_print r.ip)
      have hnext : program.after (n + 1) ⟨0, w⟩ = some ⟨s.ip + 1, r.machine.print⟩ := by
        show (program.after n ⟨0, w⟩).bind program.step? = _
        rw [hr, Option.bind_some, hstep, ← hlock'.ip_eq]
        rfl
      refine ⟨program, n, r, s, ?_⟩
      constructor
      · exact hload
      · exact hlt
      · intro k hk
        exact Loaded.rel_after_of_stop hlock (hbefore.mono hk) hs hr (.inl hk)
      · exact hr
      · exact hs
      · exact hlock'
      · exact hprint
      · rw [Machine.run_of_ofCode hload]
        exact hu
      · exact hnext
      · exact exists_unit_of_print hlock'.wraps
      · exact Loaded.run_of_after hload hnext hlt
  · -- a program that is rejected has another fault
    rcases Loaded.exists_ofCode_error hbalanced with ⟨ip, hload⟩
    rw [Machine.run_of_ofCode_error hload] at hrange
    rcases hrange with ⟨ip', value, hfault⟩
    cases hfault

/-! ## Runs side by side -/

/-- An unbounded machine is ready for a program wherever its current cell is zero. -/
theorem ready_of_current (hkind : u.kind = .unbounded) (hinside : u.Inside)
    (hzero : u.current = 0) : Ready u (u.cell (u.pointer + 1)) where
  inside := hinside
  counter_eq := hzero
  register_eq := by
    rw [hkind]
    rfl

/-- Let a machine with wrapping cells hold the cells of an unbounded one modulo 2^16, and
let no bracket of the unbounded run of a program test a multiple of 65536 other than zero.
If the unbounded run does not stop at a value that it cannot print, both runs execute the
same instructions and end alike. If it does stop at such a value, the wrapping run comes to
the same print by the same instructions, prints the value modulo 2^16 and goes on. The
program for a line of text tests no such cell on any machine whose current cell is zero. -/
theorem runs_of_wraps :
    (∀ code limit w u, Wraps w u → u.TestsAlikeWithin code limit →
      ((∀ ip value, (u.run code limit).2 ≠ .error (.cellOutOfRange ip value)) →
        EndAlike code limit w u) ∧
      ∀ ip value, (u.run code limit).2 = .error (.cellOutOfRange ip value) →
        ∃ program n r s, s.ip = ip ∧ s.machine.current = value ∧
          PartAt code program limit n w u r s) ∧
    ∀ stage text limit (u : Machine), u.kind = .unbounded → u.Inside → u.current = 0 →
      u.TestsAlikeWithin (Stage.code stage text) limit := by
  constructor
  · intro code limit w u h htest
    constructor
    · intro hrange
      apply endAlike_of_wraps h htest
      rintro ⟨ip, value, hfault⟩
      exact hrange ip value hfault
    · intro ip value hfault
      rcases exists_partAt h htest ⟨ip, value, hfault⟩ with ⟨program, n, r, s, hpart⟩
      -- the fault of the run is the one at the parting
      rw [hpart.stops] at hfault
      cases hfault
      exact ⟨program, n, r, s, rfl, rfl, hpart⟩
  · intro stage text limit u hkind hinside hzero program hload n s _ hs
    exact testsAlike_of_ready hload (ready_of_current hkind hinside hzero) hs

/-- A machine that holds 65530 behind its pointer. -/
def brimful (kind : CellKind) : Machine := ⟨kind, #[0, 65530], 0, #[], 0, 65530⟩

/-- 65530 is a unit, so both kinds of cells hold it. -/
theorem wraps_brimful : Wraps (brimful .wrapping16) (brimful .unbounded) :=
  Wraps.of_units Nat.two_pos (by simp) #[] 0 65530

/-- The program for an empty line adds ten. From zero it ends alike on both kinds of cells,
and from 65530 the wrapping machine prints the four that is left of 65540. -/
theorem runs_of_wraps_brimful :
    EndAlike (Code.program "") 100000 (.fresh .wrapping16) (.fresh .unbounded) ∧
      ∃ program n r s, s.machine.current = 65540 ∧
        PartAt (Code.program "") program 100000 n (brimful .wrapping16) (brimful .unbounded)
          r s := by
  have hcost : lineCost .finished "" ≤ 100000 :=
    Nat.le_trans (lineCost_le .finished "") (by decide)
  constructor
  · -- from zero the run returns, so it is not out of range
    rcases exists_run_fresh .unbounded .finished "" hcost with ⟨m, hrun, -⟩
    have htest := runs_of_wraps.2 .finished "" 100000 (.fresh .unbounded) rfl
      (Machine.inside_fresh .unbounded) rfl
    refine (runs_of_wraps.1 _ _ _ _ Wraps.fresh htest).1 ?_
    intro ip value hfault
    rw [hrun] at hfault
    cases hfault
  · -- from 65530 the only unit of the line, the line feed, does not fit
    have hready : Ready (brimful .unbounded) 65530 := ⟨Nat.two_pos, rfl, rfl⟩
    have htest := runs_of_wraps.2 .finished "" 100000 (brimful .unbounded) rfl Nat.two_pos rfl
    have hfits : Fits .unbounded 65530 [] := List.forall_mem_nil _
    rcases exists_run_out_of_range hready rfl (by decide : units "" = [] ++ 10 :: []) hfits
      (by decide) hcost with ⟨m, ip, hrun, -, -, -⟩
    rcases (runs_of_wraps.1 _ _ _ _ wraps_brimful htest).2 ip 65540 (congrArg Prod.snd hrun) with
      ⟨program, n, r, s, -, hcurrent, hpart⟩
    exact ⟨program, n, r, s, hcurrent, hpart⟩

/-- A machine that holds 65528 under its pointer. -/
def heavy (kind : CellKind) : Machine := ⟨kind, #[65528], 0, #[], 0, 65528⟩

/-- 65528 is a unit as well. It takes eight additions to part the two machines. -/
theorem wraps_heavy : Wraps (heavy .wrapping16) (heavy .unbounded) :=
  Wraps.of_units Nat.one_pos (by simp) #[] 0 65528

/-- The program for `A` begins with eight additions to the counter. From 65528 its first
bracket tests 65536, which a wrapping cell takes for zero: the wrapping run skips the loop
and returns, and the unbounded one is still in the loop when its steps are used up. -/
theorem runs_of_heavy :
    Wraps (heavy .wrapping16) (heavy .unbounded) ∧
      ¬ (heavy .unbounded).TestsAlikeWithin (Code.program "A") 120 ∧
      ((heavy .wrapping16).run (Code.program "A") 120).2 = .ok () ∧
      ((heavy .unbounded).run (Code.program "A") 120).2 = .error (.stepLimitExceeded 120) := by
  have hruns : ((heavy .wrapping16).run (Code.program "A") 120).2 = .ok () ∧
      ((heavy .unbounded).run (Code.program "A") 120).2 = .error (.stepLimitExceeded 120) := by
    decide +kernel
  refine ⟨wraps_heavy, ?_, hruns⟩
  -- if no bracket told the cells apart, the runs would end alike
  intro htest
  have hrange : ¬ IsRangeFault ((heavy .unbounded).run (Code.program "A") 120).2 := by
    rintro ⟨ip, value, hfault⟩
    rw [hruns.2] at hfault
    cases hfault
  have hsame := (endAlike_of_wraps wraps_heavy htest hrange).result_eq
  rw [hruns.1, hruns.2] at hsame
  cases hsame

end Execution

end TapeText
