import TapeText.Proofs.Machine.Moment
import TapeText.Proofs.Machine.Tape

/-!
# TapeText.Proofs.Machine.Lockstep — cells modulo 2^16

A machine with wrapping cells follows one with unbounded cells step by step, as
long as the brackets of the program cannot tell the cells apart: no bracket
tests a multiple of 65536 other than zero. Prints cannot tell them apart
either, because the unbounded machine only prints what fits into a unit.

* `Wraps` — a machine holds the cells of another one modulo 2^16;
* `Lockstep` — and both are at the same position;
* `lockstep_after`, `rel_after`, `rel_after_of_le` — machines in lockstep stay there;
* `lockstep_cases`, `lockstep_runFrom` — and their runs end in the same way, but for a
  print that only one of them can do.
-/

namespace TapeText

/-- The wrapping machine holds the cells of the unbounded one modulo 2^16. -/
structure Wraps (w u : Machine) : Prop where
  kind_left : w.kind = .wrapping16
  kind_right : u.kind = .unbounded
  inside : u.Inside
  pointer_eq : w.pointer = u.pointer
  size_eq : w.cells.size = u.cells.size
  cell_eq : ∀ i, w.cell i = u.cell i % 65536
  printed_eq : w.printed = u.printed

namespace Wraps

variable {w u : Machine} {c : Char} {ip : Nat}

/-- Cells of both kinds hold units as they are. -/
theorem of_units {cells : Array Int} {pointer : Nat} (hinside : pointer < cells.size)
    (hunits : ∀ v ∈ cells, 0 ≤ v ∧ v < 65536) (printed : Array UInt16) (low high : Int) :
    Wraps ⟨.wrapping16, cells, pointer, printed, low, high⟩
      ⟨.unbounded, cells, pointer, printed, low, high⟩ where
  kind_left := rfl
  kind_right := rfl
  inside := hinside
  pointer_eq := rfl
  size_eq := rfl
  cell_eq := by
    intro i
    -- a cell of the tape is a unit, and the cells behind it are zero
    rcases Nat.lt_or_ge i cells.size with hi | hi
    · have hcell : cells.getD i 0 = cells[i] := by
        rw [Array.getD_eq_getD_getElem?, Array.getElem?_eq_getElem hi, Option.getD_some]
      have hunit := hunits cells[i] (Array.getElem_mem hi)
      show cells.getD i 0 = cells.getD i 0 % 65536
      rw [hcell, Int.emod_eq_of_lt hunit.1 hunit.2]
    · rw [Machine.cell_of_size_le hi, Machine.cell_of_size_le hi, Int.zero_emod]
  printed_eq := rfl

theorem fresh : Wraps (.fresh .wrapping16) (.fresh .unbounded) :=
  of_units Nat.one_pos (by simp) #[] 0 0

theorem inside_left (h : Wraps w u) : w.Inside := by
  unfold Machine.Inside
  rw [h.pointer_eq, h.size_eq]
  exact h.inside

/-- Under the pointer it has what the other one has, modulo 2^16. -/
theorem current_eq (h : Wraps w u) : w.current = u.current % 65536 := by
  rw [Machine.current_eq_cell, Machine.current_eq_cell, h.pointer_eq, h.cell_eq]

/-- A wrapping cell holds a unit. -/
theorem current_unit (h : Wraps w u) : 0 ≤ w.current ∧ w.current ≤ 65535 := by
  rw [h.current_eq]
  exact CellKind.store_wrapping16_unit u.current

/-- A unit is the same in both machines. -/
theorem current_eq_of_unit (h : Wraps w u) (hunit : 0 ≤ u.current ∧ u.current ≤ 65535) :
    w.current = u.current := by
  rw [h.current_eq]
  exact Int.emod_eq_of_lt hunit.1 (by omega)

theorem moveRight (h : Wraps w u) : Wraps w.moveRight u.moveRight := by
  constructor
  · rw [Machine.kind_moveRight, h.kind_left]
  · rw [Machine.kind_moveRight, h.kind_right]
  · exact h.inside.execute '>'
  · rw [Machine.pointer_moveRight, Machine.pointer_moveRight, h.pointer_eq]
  · rw [Machine.size_moveRight h.inside_left, Machine.size_moveRight h.inside, h.size_eq,
      h.pointer_eq]
  · intro i
    rw [Machine.cell_moveRight, Machine.cell_moveRight, h.cell_eq]
  · rw [Machine.printed_moveRight, Machine.printed_moveRight, h.printed_eq]

theorem moveLeft (h : Wraps w u) : Wraps w.moveLeft u.moveLeft := by
  refine ⟨h.kind_left, h.kind_right, h.inside.execute '<', ?_, h.size_eq, h.cell_eq,
    h.printed_eq⟩
  show w.pointer - 1 = u.pointer - 1
  rw [h.pointer_eq]

/-- Adding commutes with taking the remainder. -/
theorem adjust (h : Wraps w u) (amount : Int) : Wraps (w.adjust amount) (u.adjust amount) := by
  refine ⟨h.kind_left, h.kind_right, ?_, h.pointer_eq, ?_, ?_, h.printed_eq⟩
  · unfold Machine.Inside
    rw [Machine.size_adjust]
    exact h.inside
  · rw [Machine.size_adjust, Machine.size_adjust, h.size_eq]
  · intro i
    rw [Machine.cell_adjust h.inside_left, Machine.cell_adjust h.inside, h.kind_left,
      h.kind_right, h.pointer_eq, h.cell_eq]
    by_cases hi : i = u.pointer
    · rw [if_pos hi, if_pos hi]
      exact Int.emod_add_emod _ 65536 amount
    · rw [if_neg hi, if_neg hi]

/-- A unit is printed alike. -/
theorem print (h : Wraps w u) (hunit : 0 ≤ u.current ∧ u.current ≤ 65535) :
    Wraps w.print u.print := by
  refine ⟨h.kind_left, h.kind_right, h.inside, h.pointer_eq, h.size_eq, h.cell_eq, ?_⟩
  show w.printed.push _ = u.printed.push _
  rw [h.printed_eq, h.current_eq_of_unit hunit]

/-- Every instruction that the unbounded machine executes keeps the machines
together. -/
theorem execute (h : Wraps w u) (hfault : u.fault? c ip = none) :
    Wraps (w.execute c) (u.execute c) := by
  unfold Machine.execute
  split
  · exact h.moveRight
  · exact h.moveLeft
  · exact h.adjust 1
  · exact h.adjust (-1)
  · -- a print that has no fault prints a unit
    apply h.print
    rw [← Decidable.not_not (p := 0 ≤ u.current ∧ u.current ≤ 65535)]
    intro hunit
    have hsome : u.fault? '.' ip = some (.cellOutOfRange ip u.current) := if_neg hunit
    rw [hfault] at hsome
    simp at hsome
  · exact h

/-- A wrapping cell can always be printed. -/
theorem fault?_print (h : Wraps w u) (ip : Nat) : w.fault? '.' ip = none := if_pos h.current_unit

/-- The wrapping machine has no faults of its own. -/
theorem fault?_eq (h : Wraps w u)
    (hfault : u.fault? c ip ≠ some (.cellOutOfRange ip u.current)) :
    w.fault? c ip = u.fault? c ip := by
  unfold Machine.fault? at hfault ⊢
  split
  · -- a step to the left depends on the pointer, and that is the same
    rw [h.pointer_eq]
  · have hunit : 0 ≤ u.current ∧ u.current ≤ 65535 := by
      rw [← Decidable.not_not (p := 0 ≤ u.current ∧ u.current ≤ 65535)]
      intro hunit
      exact hfault (if_neg hunit)
    rw [if_pos hunit, if_pos h.current_unit]
  all_goals rfl

/-- Both machines jump alike if the unbounded one tests no multiple of 65536
other than zero. -/
theorem next_eq (h : Wraps w u)
    (htest : c = '[' ∨ c = ']' → u.current % 65536 = 0 → u.current = 0)
    (partner : Option Nat) : w.next c ip partner = u.next c ip partner := by
  -- a bracket only looks at whether the cell is zero
  have hzero : c = '[' ∨ c = ']' → (w.current = 0 ↔ u.current = 0) := by
    intro hc
    rw [h.current_eq]
    constructor
    · exact htest hc
    · intro hu
      rw [hu, Int.zero_emod]
  unfold Machine.next
  split
  · simp only [hzero (.inl rfl)]
  · simp only [hzero (.inr rfl)]
  · rfl

end Wraps

/-- A run has stopped at a print of a value that is no unit. -/
def IsRangeFault (result : Except Fault Unit) : Prop :=
  ∃ ip value, result = .error (.cellOutOfRange ip value)

/-- Two runs at the same position, one on the cells of the other modulo
2^16. -/
structure Lockstep (w u : Moment) : Prop where
  ip_eq : w.ip = u.ip
  wraps : Wraps w.machine u.machine

namespace Loaded

variable {program : Loaded} {w u u' : Moment} {n k : Nat}

/-- No bracket tests a multiple of 65536 other than zero at this moment. -/
def TestsAlike (program : Loaded) (u : Moment) : Prop :=
  ∀ c, program.code[u.ip]? = some c → c = '[' ∨ c = ']' →
    u.machine.current % 65536 = 0 → u.machine.current = 0

/-- Nor does one at any of the first `n` moments of the run that starts here. -/
def TestsAlikeFor (program : Loaded) (n : Nat) (u : Moment) : Prop :=
  ∀ k r, k < n → program.after k u = some r → program.TestsAlike r

theorem TestsAlikeFor.mono (h : program.TestsAlikeFor n u) (hk : k ≤ n) :
    program.TestsAlikeFor k u := by
  intro j r hj
  exact h j r (Nat.lt_of_lt_of_le hj hk)

/-- One step keeps the runs together. -/
theorem lockstep_step (h : Lockstep w u) (htest : program.TestsAlike u)
    (hstep : program.step? u = some u') :
    ∃ w', program.step? w = some w' ∧ Lockstep w' u' := by
  rcases exists_of_step? hstep with ⟨c, hc, hfault, rfl⟩
  -- the step of the unbounded run shows that it has no fault, so the other one has none
  have hfault' : w.machine.fault? c w.ip = none := by
    rw [h.ip_eq, h.wraps.fault?_eq (by rw [hfault]; simp)]
    exact hfault
  have hc' : program.code[w.ip]? = some c := by
    rw [h.ip_eq]
    exact hc
  refine ⟨_, step?_eq_some hc' hfault', ?_, ?_⟩
  · show w.machine.next c w.ip _ = u.machine.next c u.ip _
    rw [h.ip_eq]
    exact h.wraps.next_eq (htest c hc) _
  · exact h.wraps.execute hfault

/-- The runs stay together as long as the unbounded one can go on. -/
theorem lockstep_after (h : Lockstep w u) (htest : program.TestsAlikeFor n u)
    (hu : program.after n u = some u') :
    ∃ w', program.after n w = some w' ∧ Lockstep w' u' := by
  -- induction on the number of steps; each one is covered by the tests of the moment before
  induction n generalizing u' with
  | zero =>
      obtain rfl : u = u' := Option.some.inj hu
      exact ⟨w, rfl, h⟩
  | succ n ih =>
      rcases after_succ_eq_some_iff.1 hu with ⟨r, hr, hstep⟩
      rcases ih (htest.mono (Nat.le_succ n)) hr with ⟨w₁, hw₁, hlock⟩
      rcases lockstep_step hlock (htest n r (Nat.lt_succ_self n) hr) hstep with ⟨w', hw', hlock'⟩
      exact ⟨w', after_succ_eq_some_iff.2 ⟨w₁, hw₁, hw'⟩, hlock'⟩

/-- Both runs have the same moments up to one that they both get to, and if the wrapping
run stops there they both have no more. -/
theorem rel_after_of_stop {t r : Moment} (h : Lockstep w u) (htest : program.TestsAlikeFor n u)
    (hu : program.after k u = some t) (hw : program.after k w = some r)
    (hstop : n ≤ k ∨ program.step? r = none) :
    Option.Rel Lockstep (program.after n w) (program.after n u) := by
  cases hn : program.after n u with
  | some u' =>
      rcases lockstep_after h htest hn with ⟨w', hw', hlock⟩
      rw [hw']
      exact .some hlock
  | none =>
      -- the unbounded run has ended before, and the other one with it
      have hlt : k < n := by
        rw [← Nat.not_le]
        intro hle
        rw [after_eq_none_of_le hn hle] at hu
        cases hu
      rw [after_eq_none_of_lt hw (hstop.resolve_left (Nat.not_le.2 hlt)) hlt]
      exact .none

/-- If the unbounded run comes to its end, both have the same number of
moments. -/
theorem rel_after {P : Moment → Prop} {t : Moment} (h : Lockstep w u)
    (htest : ∀ k r, program.after k u = some r → program.TestsAlike r)
    (hpath : Path program P k u t) (hend : program.code.size ≤ t.ip) (n : Nat) :
    Option.Rel Lockstep (program.after n w) (program.after n u) := by
  rcases lockstep_after h (fun k r _ => htest k r) hpath.after_eq with ⟨w', hw', hlock⟩
  apply rel_after_of_stop h (fun k r _ => htest k r) hpath.after_eq hw'
  right
  apply step?_of_size_le
  rw [hlock.ip_eq]
  exact hend

/-- How runs in lockstep end, if the brackets tell nothing apart within the budget: at
the same moment, and in the same way unless the unbounded one finds a value there that
it cannot print. -/
theorem lockstep_cases (h : Lockstep w u) (limit budget : Nat)
    (htest : program.TestsAlikeFor budget u) :
    ∃ n t r, n ≤ budget ∧ program.after n u = some t ∧ program.after n w = some r ∧
      Lockstep r t ∧
      ((∃ result, ¬ IsRangeFault result ∧ (n = budget ∨ program.step? r = none) ∧
          Machine.runFrom program limit budget u.ip u.machine = (t.machine, result) ∧
          Machine.runFrom program limit budget w.ip w.machine = (r.machine, result)) ∨
        (n < budget ∧ program.code[t.ip]? = some '.' ∧
          Machine.runFrom program limit budget u.ip u.machine =
            (t.machine, .error (.cellOutOfRange t.ip t.machine.current)))) := by
  -- the wrapping run comes to the moment at which the unbounded one ends
  rcases runFrom_cases program limit budget u with ⟨n, t, hn, ht, hcases⟩
  rcases lockstep_after h (htest.mono hn) ht with ⟨r, hr, hlock⟩
  have hip := hlock.ip_eq
  refine ⟨n, t, r, hn, ht, hr, hlock, ?_⟩
  rcases Nat.exists_eq_add_of_le hn with ⟨rest, rfl⟩
  rw [runFrom_of_after hr limit rest]
  rcases hcases with ⟨hend, hrun⟩ | ⟨hzero, hlt, hrun⟩ | ⟨hlt, c, fault, hc, hfault, hrun⟩
  · -- both runs are over
    have hok : ¬ IsRangeFault (.ok ()) := by
      rintro ⟨ip, value, hresult⟩
      cases hresult
    rw [← hip] at hend
    exact .inl ⟨_, hok, .inr (step?_of_size_le hend), hrun,
      Machine.runFrom_of_size_le rest r.machine hend⟩
  · -- both budgets are used up
    have hlimit : ¬ IsRangeFault (.error (.stepLimitExceeded limit)) := by
      rintro ⟨ip, value, hresult⟩
      cases hresult
    obtain rfl : rest = 0 := by omega
    rw [← hip] at hlt
    exact .inl ⟨_, hlimit, .inl hzero, hrun, Machine.runFrom_zero r.machine hlt⟩
  · obtain ⟨k, rfl⟩ : ∃ k, rest = k + 1 := ⟨rest - 1, by omega⟩
    by_cases hrange : IsRangeFault (.error fault)
    · -- only the unbounded run has a fault, and that is at a print
      rcases hrange with ⟨ip, value, hresult⟩
      cases hresult
      rcases Machine.fault?_cases hfault with ⟨-, -, heq⟩ | ⟨rfl, -, heq⟩ | ⟨-, heq⟩
      · cases heq
      · rw [heq] at hrun
        exact .inr ⟨hlt, hc, hrun⟩
      · cases heq
    · -- both meet the same fault
      have hsame : r.machine.fault? c r.ip = some fault := by
        rw [hip, hlock.wraps.fault?_eq, hfault]
        intro hout
        rw [hfault] at hout
        exact hrange ⟨_, _, congrArg Except.error (Option.some.inj hout)⟩
      rw [← hip] at hc
      exact .inl ⟨_, hrange, .inr (step?_of_fault hc hsame), hrun,
        Machine.runFrom_fault hc hsame⟩

/-- Unless the unbounded run meets a value that it cannot print, both end in
the same way. -/
theorem lockstep_runFrom (h : Lockstep w u) (limit budget : Nat)
    (htest : program.TestsAlikeFor budget u)
    (hrange : ¬ IsRangeFault (Machine.runFrom program limit budget u.ip u.machine).2) :
    (Machine.runFrom program limit budget w.ip w.machine).2 =
        (Machine.runFrom program limit budget u.ip u.machine).2 ∧
      Wraps (Machine.runFrom program limit budget w.ip w.machine).1
        (Machine.runFrom program limit budget u.ip u.machine).1 := by
  rcases lockstep_cases h limit budget htest with
    ⟨n, t, r, -, -, -, hlock, ⟨result, -, -, hu, hw⟩ | ⟨-, -, hu⟩⟩
  · rw [hu, hw]
    exact ⟨rfl, hlock.wraps⟩
  · rw [hu] at hrange
    exact absurd ⟨_, _, rfl⟩ hrange

/-- Within its budget, a run that meets no such value has the same moments on both kinds
of cells. -/
theorem rel_after_of_le (h : Lockstep w u) (limit budget : Nat)
    (htest : program.TestsAlikeFor budget u)
    (hrange : ¬ IsRangeFault (Machine.runFrom program limit budget u.ip u.machine).2)
    (hn : n ≤ budget) : Option.Rel Lockstep (program.after n w) (program.after n u) := by
  rcases lockstep_cases h limit budget htest with
    ⟨k, t, r, -, ht, hr, -, ⟨result, -, hstop, -, -⟩ | ⟨-, -, hu⟩⟩
  · apply rel_after_of_stop h (htest.mono hn) ht hr
    rcases hstop with rfl | hstop
    · exact .inl hn
    · exact .inr hstop
  · rw [hu] at hrange
    exact absurd ⟨_, _, rfl⟩ hrange

end Loaded

end TapeText
