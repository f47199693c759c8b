import TapeText.Proofs.Machine.History

/-!
# TapeText.Proofs.Machine.Limit — what the limit of a run decides

A program and a machine have one course of moments, and every run follows it. The limit
only decides how far: a run that comes to its end ends in the same way with every larger
limit, and a run that has used up its limit stands where the longer run stands after as
many instructions.

* `runFrom_eq_of_le`, `run_eq_of_le` — runs that have come to their end;
* `after_of_cut`, `CutAt`, `exists_cutAt` — runs that have used up their limit;
* `printed_prefix_of_le` — the output under two limits;
* `stepsFrom`, `Machine.steps` — how many instructions a run executes;
* `ReturnsIn` — the least limit that a program returns with, and `returnsIn_of_run`: that
  is the number of its steps.
-/

namespace TapeText

/-! ## Larger limits -/

namespace Loaded

variable {program : Loaded} {s : Moment} {limit limit' budget budget' : Nat}

/-- A run that has not used up its budget ends in the same way with a larger one. -/
theorem runFrom_eq_of_le (hle : budget ≤ budget')
    (hdone : ∀ l, (Machine.runFrom program limit budget s.ip s.machine).2 ≠
      .error (.stepLimitExceeded l)) :
    Machine.runFrom program limit' budget' s.ip s.machine =
      Machine.runFrom program limit budget s.ip s.machine := by
  -- the moment at which the run with the smaller budget ends is on the way of the other one
  rcases runFrom_cases program limit budget s with ⟨n, t, hn, hafter, hcases⟩
  obtain ⟨rest, rfl⟩ := Nat.exists_eq_add_of_le (Nat.le_trans hn hle)
  have hrest := runFrom_of_after hafter limit' rest
  rcases hcases with ⟨hend, hrun⟩ | ⟨-, -, hrun⟩ | ⟨hlt, c, fault, hc, hfault, hrun⟩
  · rw [hrest, hrun]
    exact Machine.runFrom_of_size_le rest t.machine hend
  · rw [hrun] at hdone
    exact absurd rfl (hdone limit)
  · -- the larger budget has a step left for the instruction with the fault
    obtain ⟨k, rfl⟩ : ∃ k, rest = k + 1 := ⟨rest - 1, by omega⟩
    rw [hrest, hrun]
    exact Machine.runFrom_fault hc hfault

/-- A run that has used up its budget has stopped in front of an instruction. -/
theorem after_of_cut {l : Nat} (hcut : (Machine.runFrom program limit budget s.ip s.machine).2 =
      .error (.stepLimitExceeded l)) :
    ∃ t, program.after budget s = some t ∧ t.ip < program.code.size ∧
      Machine.runFrom program limit budget s.ip s.machine =
        (t.machine, .error (.stepLimitExceeded limit)) := by
  rcases runFrom_cases program limit budget s with ⟨n, t, -, hafter, hcases⟩
  rcases hcases with ⟨-, hrun⟩ | ⟨rfl, hip, hrun⟩ | ⟨-, c, fault, -, hfault, hrun⟩
  · rw [hrun] at hcut
    cases hcut
  · exact ⟨t, hafter, hip, hrun⟩
  · -- no instruction has this fault
    rw [hrun] at hcut
    obtain rfl := Except.error.inj hcut
    exact absurd rfl ((Machine.ne_of_fault? hfault).2 l)

/-- A run that returns has come to a moment behind the end of its program. -/
theorem exists_after_of_runFrom {m' : Machine}
    (hrun : Machine.runFrom program limit budget s.ip s.machine = (m', .ok ())) :
    ∃ n t, n ≤ budget ∧ program.after n s = some t ∧ program.code.size ≤ t.ip ∧
      t.machine = m' := by
  rcases runFrom_cases program limit budget s with ⟨n, t, hn, hafter, hcases⟩
  rcases hcases with ⟨hend, heq⟩ | ⟨-, -, heq⟩ | ⟨-, c, fault, -, -, heq⟩
  · rw [hrun] at heq
    exact ⟨n, t, hn, hafter, hend, (congrArg Prod.fst heq).symm⟩
  · rw [hrun] at heq
    cases heq
  · rw [hrun] at heq
    cases heq

end Loaded

/-- A run with the smaller limit has used it up. It has stopped at a moment that the run
with the larger one comes to by as many instructions; that run goes on from there, and so
it only adds to the output. -/
structure CutAt (m : Machine) (code : List Char) (limit larger : Nat) (program : Loaded)
    (s : Moment) : Prop where
  loads : Loaded.ofCode code = .ok program
  moment : program.after limit ⟨0, m⟩ = some s
  unfinished : s.ip < program.code.size
  stops : m.run code limit = (s.machine, .error (.stepLimitExceeded limit))
  goes_on : m.run code larger =
    Machine.runFrom program larger (larger - limit) s.ip s.machine
  printed_prefix : s.machine.printed.toList <+: (m.run code larger).1.printed.toList

namespace Machine

variable {m : Machine} {code : List Char} {limit larger : Nat}

/-- A run that has not used up its limit is the run with every larger one. -/
theorem run_eq_of_le (hle : limit ≤ larger)
    (hdone : ∀ l, (m.run code limit).2 ≠ .error (.stepLimitExceeded l)) :
    m.run code larger = m.run code limit := by
  cases hload : Loaded.ofCode code with
  -- a program that is rejected has no use for a limit
  | error fault => rw [run_of_ofCode_error hload, run_of_ofCode_error hload]
  | ok program =>
      rw [run_of_ofCode hload] at hdone ⊢
      rw [run_of_ofCode hload]
      exact Loaded.runFrom_eq_of_le (s := ⟨0, m⟩) hle hdone

/-- A run that has used up its limit is the beginning of the run with any larger one. -/
theorem exists_cutAt {l : Nat} (hle : limit ≤ larger)
    (hcut : (m.run code limit).2 = .error (.stepLimitExceeded l)) :
    ∃ program s, CutAt m code limit larger program s := by
  cases hload : Loaded.ofCode code with
  | error fault =>
      -- a program is not rejected for its limit
      rw [run_of_ofCode_error hload] at hcut
      obtain rfl := Except.error.inj hcut
      unfold Loaded.ofCode at hload
      split at hload <;> cases hload
  | ok program =>
      rw [run_of_ofCode hload] at hcut
      rcases Loaded.after_of_cut (s := ⟨0, m⟩) hcut with ⟨s, hs, hip, hstops⟩
      have hgoes := Loaded.run_of_after hload hs hle
      refine ⟨program, s, hload, hs, hip, ?_, hgoes, ?_⟩
      · rw [run_of_ofCode hload]
        exact hstops
      · rw [hgoes]
        exact Grows.printed_prefix (grows_runFrom program larger (larger - limit) s)

/-- With a larger limit a run prints what it has printed before, and maybe more. -/
theorem printed_prefix_of_le (m : Machine) (code : List Char) (hle : limit ≤ larger) :
    (m.run code limit).1.printed.toList <+: (m.run code larger).1.printed.toList := by
  -- either the shorter run is the beginning of the longer one, or it is the same run
  by_cases hcut : ∃ l, (m.run code limit).2 = .error (.stepLimitExceeded l)
  · rcases hcut with ⟨l, hcut⟩
    rcases exists_cutAt hle hcut with ⟨program, s, hs⟩
    rw [hs.stops]
    exact hs.printed_prefix
  · have hsame := run_eq_of_le hle (not_exists.1 hcut)
    exact ⟨[], by rw [hsame, List.append_nil]⟩

end Machine

/-! ## The number of steps -/

/-- How many instructions a run executes within its budget. -/
def Loaded.stepsFrom (program : Loaded) : (budget : Nat) → Moment → Nat
  | 0, _ => 0
  | budget + 1, s =>
    match program.step? s with
    | none => 0
    | some t => program.stepsFrom budget t + 1

/-- How many instructions the run of a program executes within its limit. -/
def Machine.steps (m : Machine) (code : List Char) (limit : Nat) : Nat :=
  match Loaded.ofCode code with
  | .ok program => program.stepsFrom limit ⟨0, m⟩
  | .error _ => 0

/-- The run of a program returns with that limit and with no smaller one, and leaves that
machine. -/
structure Machine.ReturnsIn (m : Machine) (code : List Char) (steps : Nat) (m' : Machine) :
    Prop where
  run_eq : m.run code steps = (m', .ok ())
  steps_le : ∀ limit, (m.run code limit).2 = .ok () → steps ≤ limit

/-- A run that ends within its budget executes what leads to its last moment. -/
theorem Loaded.stepsFrom_eq {program : Loaded} {s t : Moment} {n budget : Nat}
    (hafter : program.after n s = some t) (hend : program.step? t = none) (hn : n ≤ budget) :
    program.stepsFrom budget s = n := by
  -- induction on the budget, with the first moment free: one step less is left from the next
  -- one
  induction budget generalizing s n with
  | zero => exact (Nat.le_zero.1 hn).symm
  | succ budget ih =>
      unfold stepsFrom
      cases hstep : program.step? s with
      | none =>
          -- there is no moment behind the first one
          cases n with
          | zero => rfl
          | succ n =>
              rw [after_eq_none_of_lt rfl hstep (Nat.succ_pos n)] at hafter
              cases hafter
      | some r =>
          cases n with
          | zero =>
              obtain rfl := Option.some.inj hafter
              rw [hstep] at hend
              cases hend
          | succ n =>
              rw [after_succ_of_step? hstep] at hafter
              exact congrArg (· + 1) (ih hafter (Nat.le_of_succ_le_succ hn))

namespace Machine

variable {m m' : Machine} {code : List Char} {limit n : Nat}

/-- A run that returns has come to a moment behind the end of its program. -/
theorem exists_after_of_run (hrun : m.run code limit = (m', .ok ())) :
    ∃ program k t, Loaded.ofCode code = .ok program ∧ k ≤ limit ∧
      program.after k ⟨0, m⟩ = some t ∧ program.code.size ≤ t.ip ∧ t.machine = m' := by
  cases hload : Loaded.ofCode code with
  | error fault =>
      rw [run_of_ofCode_error hload] at hrun
      cases hrun
  | ok program =>
      rw [run_of_ofCode hload] at hrun
      rcases Loaded.exists_after_of_runFrom (s := ⟨0, m⟩) hrun with ⟨k, t, hk, hafter, hend, hm⟩
      exact ⟨program, k, t, rfl, hk, hafter, hend, hm⟩

/-- The least limit that a program returns with is the number of instructions that lead to
its end. -/
theorem returnsIn_iff :
    m.ReturnsIn code n m' ↔ ∃ program t, Loaded.ofCode code = .ok program ∧
      program.after n ⟨0, m⟩ = some t ∧ program.code.size ≤ t.ip ∧ t.machine = m' := by
  constructor
  · intro h
    rcases exists_after_of_run h.run_eq with ⟨program, k, t, hload, hk, hafter, hend, hm⟩
    have hrun := Loaded.run_of_after hload hafter (Nat.le_refl k)
    rw [runFrom_of_size_le _ _ hend] at hrun
    -- no smaller limit would do
    obtain rfl := Nat.le_antisymm hk (h.steps_le k (congrArg Prod.snd hrun))
    exact ⟨program, t, hload, hafter, hend, hm⟩
  · rintro ⟨program, t, hload, hafter, hend, rfl⟩
    constructor
    · rw [Loaded.run_of_after hload hafter (Nat.le_refl n)]
      exact runFrom_of_size_le _ _ hend
    · intro limit hok
      rcases exists_after_of_run (Prod.ext rfl hok) with
        ⟨program', k, t', hload', hk, hafter', hend', -⟩
      rw [hload] at hload'
      obtain rfl := Except.ok.inj hload'
      -- there is no moment behind the end of the program
      apply Nat.le_trans _ hk
      rw [← Nat.not_lt]
      intro hlt
      rw [Loaded.after_eq_none_of_lt hafter' (Loaded.step?_of_size_le hend') hlt] at hafter
      cases hafter

/-- A program that returns does so after the steps of its run. -/
theorem returnsIn_of_run (hrun : m.run code limit = (m', .ok ())) :
    m.ReturnsIn code (m.steps code limit) m' ∧ m.steps code limit ≤ limit := by
  rcases exists_after_of_run hrun with ⟨program, k, t, hload, hk, hafter, hend, hm⟩
  have hsteps : m.steps code limit = k := by
    unfold steps
    rw [hload]
    exact Loaded.stepsFrom_eq hafter (Loaded.step?_of_size_le hend) hk
  rw [hsteps]
  exact ⟨returnsIn_iff.2 ⟨program, t, hload, hafter, hend, hm⟩, hk⟩

end Machine

end TapeText
