import TapeText.Code.Program
import TapeText.Proofs.Machine.Lockstep

/-!
# TapeText.Proofs.Machine.History — machines with any past

A machine may have run any programs before: generated ones, broken ones, and ones
that ended with whatever fault. What its parts have to do with each other holds all
the same, because each instruction keeps it and a run is made of instructions.

* `Sound` — the pointer is on the tape, and the cells are in the range;
* `Grows` — what a later machine has kept of an earlier one;
* `Sound.execute`, `Grows.execute` — what one instruction does to both;
* `kept_after`, `kept_runFrom`, `kept_run`, `kept_afterRuns` — what every instruction keeps,
  runs keep;
* `history_sound` — what holds behind any number of runs and during the next one.
-/

namespace TapeText

namespace Machine

/-- The pointer is on the tape, so the tape has a cell. The range holds every cell and
zero; on wrapping cells it holds units only. -/
structure Sound (m : Machine) : Prop where
  inside : m.pointer < m.cells.size
  cell_within : ∀ value ∈ m.cells, m.low ≤ value ∧ value ≤ m.high
  zero_within : m.low ≤ 0 ∧ 0 ≤ m.high
  units_of_wrapping : m.kind = .wrapping16 → 0 ≤ m.low ∧ m.high ≤ 65535

/-- The later machine has the cells of the earlier one and maybe more, its range is as
wide or wider, and its output goes on behind the earlier output. -/
structure Grows (earlier later : Machine) : Prop where
  kind_eq : later.kind = earlier.kind
  size_le : earlier.cells.size ≤ later.cells.size
  low_le : later.low ≤ earlier.low
  high_le : earlier.high ≤ later.high
  printed_prefix : earlier.printed.toList <+: later.printed.toList

variable {m m₁ m₂ m₃ : Machine}

/-! ## One instruction -/

/-- A fresh machine has one cell, with zero in it. -/
theorem sound_fresh (kind : CellKind) : (fresh kind).Sound where
  inside := Nat.one_pos
  cell_within := by simp [fresh]
  zero_within := ⟨Int.le_refl 0, Int.le_refl 0⟩
  units_of_wrapping := fun _ => ⟨Int.le_refl 0, Int.le_of_lt (show (0 : Int) < 65535 by decide)⟩

/-- Zero is in the range, so it does not matter where the tape ends. -/
theorem Sound.within (h : m.Sound) (i : Nat) : m.low ≤ m.cell i ∧ m.cell i ≤ m.high := by
  rcases Nat.lt_or_ge i m.cells.size with hi | hi
  · have hcell : m.cell i = m.cells[i] := by simp [cell, hi]
    rw [hcell]
    exact h.cell_within _ (Array.getElem_mem hi)
  · rw [cell_of_size_le hi]
    exact h.zero_within

/-- It is enough to look at all cells, on the tape and behind it. -/
theorem sound_of_within (hinside : m.Inside)
    (hwithin : ∀ i, m.low ≤ m.cell i ∧ m.cell i ≤ m.high)
    (hunits : m.kind = .wrapping16 → 0 ≤ m.low ∧ m.high ≤ 65535) : m.Sound where
  inside := hinside
  cell_within := by
    intro value hvalue
    rcases Array.mem_iff_getElem.1 hvalue with ⟨i, hi, rfl⟩
    have hcell : m.cell i = m.cells[i] := by simp [cell, hi]
    rw [← hcell]
    exact hwithin i
  zero_within := by
    -- the cell behind the tape reads as zero
    have hend := hwithin m.cells.size
    rwa [cell_of_size_le (Nat.le_refl _)] at hend
  units_of_wrapping := hunits

/-- What `+` and `-` store is in the range from then on. -/
theorem Sound.adjust (h : m.Sound) (amount : Int) : (m.adjust amount).Sound := by
  have hlow : (m.adjust amount).low = min m.low (m.kind.store (m.current + amount)) := rfl
  have hhigh : (m.adjust amount).high = max m.high (m.kind.store (m.current + amount)) := rfl
  apply sound_of_within
  · unfold Inside
    rw [size_adjust]
    exact h.inside
  · intro i
    have hcell := h.within i
    rw [cell_adjust h.inside, hlow, hhigh]
    split
    · next hi =>
      rw [hi, ← current_eq_cell]
      omega
    · omega
  · intro hkind
    have hunits := h.units_of_wrapping hkind
    have hkind' : m.kind = .wrapping16 := hkind
    -- what a wrapping cell stores is a unit, so the range stays within the units
    have hstored := CellKind.store_wrapping16_unit (m.current + amount)
    rw [hlow, hhigh, hkind']
    omega

/-- No instruction breaks what holds of a machine. -/
theorem Sound.execute (h : m.Sound) (c : Char) : (m.execute c).Sound := by
  rcases execute_cases m c with ⟨-, he⟩ | ⟨-, he⟩ | ⟨-, he⟩ | ⟨-, he⟩ | ⟨-, he⟩ |
    ⟨-, -, -, -, -, he⟩
  · have hinside := Inside.execute h.inside c
    rw [he] at hinside ⊢
    apply sound_of_within hinside
    · intro i
      rw [low_moveRight, high_moveRight, cell_moveRight]
      exact h.within i
    · rw [low_moveRight, high_moveRight, kind_moveRight]
      exact h.units_of_wrapping
  · have hinside := Inside.execute h.inside c
    rw [he] at hinside ⊢
    exact ⟨hinside, h.cell_within, h.zero_within, h.units_of_wrapping⟩
  · rw [he]
    exact h.adjust 1
  · rw [he]
    exact h.adjust (-1)
  · rw [he]
    exact ⟨h.inside, h.cell_within, h.zero_within, h.units_of_wrapping⟩
  · rw [he]
    exact h

theorem Grows.refl (m : Machine) : m.Grows m :=
  ⟨rfl, Nat.le_refl _, Int.le_refl _, Int.le_refl _, List.prefix_refl _⟩

theorem Grows.trans (h₁ : m₁.Grows m₂) (h₂ : m₂.Grows m₃) : m₁.Grows m₃ where
  kind_eq := h₂.kind_eq.trans h₁.kind_eq
  size_le := Nat.le_trans h₁.size_le h₂.size_le
  low_le := Int.le_trans h₂.low_le h₁.low_le
  high_le := Int.le_trans h₁.high_le h₂.high_le
  printed_prefix := h₁.printed_prefix.trans h₂.printed_prefix

theorem grows_moveRight (m : Machine) : m.Grows m.moveRight where
  kind_eq := kind_moveRight m
  size_le := size_cells_le_execute m '>'
  low_le := Int.le_of_eq (low_moveRight m)
  high_le := Int.le_of_eq (high_moveRight m).symm
  printed_prefix := ⟨[], by rw [List.append_nil, printed_moveRight]⟩

theorem grows_adjust (m : Machine) (amount : Int) : m.Grows (m.adjust amount) where
  kind_eq := rfl
  size_le := Nat.le_of_eq (size_adjust m amount).symm
  low_le := Int.min_le_left _ _
  high_le := Int.le_max_left _ _
  printed_prefix := List.prefix_refl _

theorem grows_print (m : Machine) : m.Grows m.print where
  kind_eq := rfl
  size_le := Nat.le_refl _
  low_le := Int.le_refl _
  high_le := Int.le_refl _
  printed_prefix := by
    unfold print
    rw [Array.toList_push]
    exact List.prefix_append _ _

/-- No instruction takes anything away. -/
theorem grows_execute (m : Machine) (c : Char) : m.Grows (m.execute c) := by
  rcases execute_cases m c with ⟨-, he⟩ | ⟨-, he⟩ | ⟨-, he⟩ | ⟨-, he⟩ | ⟨-, he⟩ |
    ⟨-, -, -, -, -, he⟩ <;> rw [he]
  · exact grows_moveRight m
  · exact ⟨rfl, Nat.le_refl _, Int.le_refl _, Int.le_refl _, List.prefix_refl _⟩
  · exact grows_adjust m 1
  · exact grows_adjust m (-1)
  · exact grows_print m
  · exact Grows.refl m

theorem Grows.execute (h : m₁.Grows m₂) (c : Char) : m₁.Grows (m₂.execute c) :=
  h.trans (grows_execute m₂ c)

end Machine

/-! ## Runs -/

variable {P : Machine → Prop} {program : Loaded} {s t : Moment} {m : Machine}

/-- What every instruction keeps is kept up to any moment of a run. -/
theorem Loaded.kept_after {n : Nat} (hexecute : ∀ m c, P m → P (m.execute c)) (hs : P s.machine)
    (h : program.after n s = some t) : P t.machine := by
  -- by induction on the moments: each one is an instruction behind the one before
  refine after_induction (Q := fun r => P r.machine) hs ?_ h
  intro k r u _ hstep hr
  rcases exists_of_step? hstep with ⟨c, -, -, rfl⟩
  exact hexecute r.machine c hr

/-- It is kept by the machine that a run leaves, however it ends. -/
theorem Loaded.kept_runFrom (hexecute : ∀ m c, P m → P (m.execute c)) (hs : P s.machine)
    (program : Loaded) (limit budget : Nat) :
    P (Machine.runFrom program limit budget s.ip s.machine).1 := by
  rcases runFrom_cases program limit budget s with ⟨n, t, -, hafter, hcases⟩
  have ht := kept_after hexecute hs hafter
  -- a run ends behind the program, at its limit or at a fault, and leaves the machine there
  rcases hcases with ⟨-, hrun⟩ | ⟨-, -, hrun⟩ | ⟨-, c, fault, -, -, hrun⟩
  all_goals
    rw [hrun]
    exact ht

namespace Machine

/-- A program that is rejected leaves the machine as it was, and any other one is run.
-/
theorem kept_run (hexecute : ∀ m c, P m → P (m.execute c)) (hm : P m) (code : List Char)
    (limit : Nat) : P (m.run code limit).1 := by
  cases hload : Loaded.ofCode code with
  | error fault =>
      rw [run_of_ofCode_error hload]
      exact hm
  | ok program =>
      rw [run_of_ofCode hload]
      exact Loaded.kept_runFrom (s := ⟨0, m⟩) hexecute hm program limit limit

/-- From any machine a run only adds. -/
theorem grows_after {n : Nat} (h : program.after n s = some t) : s.machine.Grows t.machine :=
  Loaded.kept_after (fun _ c hm => hm.execute c) (Grows.refl s.machine) h

/-- And so does the whole run, whatever its end. -/
theorem grows_runFrom (program : Loaded) (limit budget : Nat) (s : Moment) :
    s.machine.Grows (runFrom program limit budget s.ip s.machine).1 :=
  Loaded.kept_runFrom (fun _ c hm => hm.execute c) (Grows.refl s.machine) program limit budget

/-- Wrapping cells can always be printed. -/
theorem Sound.not_isRangeFault (h : m.Sound) (hkind : m.kind = .wrapping16) (code : List Char)
    (limit : Nat) : ¬ IsRangeFault (m.run code limit).2 := by
  rintro ⟨ip, value, hresult⟩
  rcases Loaded.run_cases m code limit with
    ⟨_, -, hrun⟩ | ⟨program, n, t, -, hafter, hrun | hrun | ⟨c, fault, hfault, hrun⟩⟩ <;>
    rw [hrun] at hresult
  · cases hresult
  · cases hresult
  · cases hresult
  · obtain rfl := Except.error.inj hresult
    rcases fault?_cases hfault with ⟨-, -, heq⟩ | ⟨-, hout, -⟩ | ⟨-, heq⟩
    · cases heq
    · -- the current cell is in the range, and the range holds units only
      have hsound : t.machine.Sound := Loaded.kept_after (fun _ c hm => hm.execute c) h hafter
      have hwithin := hsound.within t.machine.pointer
      have hunits := hsound.units_of_wrapping ((grows_after hafter).kind_eq.trans hkind)
      rw [current_eq_cell] at hout
      omega
    · cases heq

/-! ## Any number of runs -/

/-- What can be run on a machine: any code, or the program for a line. -/
inductive Job where
  | code (chars : List Char)
  | line (text : String)

def Job.toCode : Job → List Char
  | code chars => chars
  | line text => Code.program text

/-- What is left of a machine behind some runs, each with its own limit, in whatever
way they have ended. -/
def afterRuns (m : Machine) (runs : List (Job × Nat)) : Machine :=
  runs.foldl (fun m run => (m.run run.1.toCode run.2).1) m

theorem afterRuns_append (m : Machine) (earlier later : List (Job × Nat)) :
    m.afterRuns (earlier ++ later) = (m.afterRuns earlier).afterRuns later :=
  List.foldl_append

/-- What every instruction keeps is kept by any number of runs. -/
theorem kept_afterRuns (hexecute : ∀ m c, P m → P (m.execute c)) (hm : P m)
    (runs : List (Job × Nat)) : P (m.afterRuns runs) := by
  -- induction on the runs, with the machine free: the next run starts with what is left
  induction runs generalizing m with
  | nil => exact hm
  | cons run runs ih => exact ih (kept_run hexecute hm run.1.toCode run.2)

theorem grows_afterRuns (m : Machine) (runs : List (Job × Nat)) : m.Grows (m.afterRuns runs) :=
  kept_afterRuns (fun _ c hm => hm.execute c) (Grows.refl m) runs

/-- Behind any runs that a fresh machine has gone through, and at every moment of the
next one, the pointer is on the tape and every cell is in the range; later runs only
add to the tape, the range and the output. On wrapping cells there are only units, and
no run stops at a print. -/
theorem history_sound (kind : CellKind) (earlier later : List (Job × Nat)) :
    ((fresh kind).afterRuns earlier).Sound ∧
      ((fresh kind).afterRuns earlier).Grows ((fresh kind).afterRuns (earlier ++ later)) ∧
      (∀ code program n t, Loaded.ofCode code = .ok program →
        program.after n ⟨0, (fresh kind).afterRuns earlier⟩ = some t →
        t.machine.Sound ∧ ((fresh kind).afterRuns earlier).Grows t.machine) ∧
      (kind = .wrapping16 →
        (∀ value ∈ ((fresh kind).afterRuns earlier).cells, 0 ≤ value ∧ value ≤ 65535) ∧
        (0 ≤ ((fresh kind).afterRuns earlier).low ∧
          ((fresh kind).afterRuns earlier).high ≤ 65535) ∧
        ∀ code limit, ¬ IsRangeFault (((fresh kind).afterRuns earlier).run code limit).2) := by
  -- both properties are kept by every instruction, so by every run
  have hexecute : ∀ m c, Sound m → (m.execute c).Sound := by
    intro m c h
    exact h.execute c
  have hsound := kept_afterRuns hexecute (sound_fresh kind) earlier
  refine ⟨hsound, ?_, ?_, ?_⟩
  · rw [afterRuns_append]
    exact grows_afterRuns _ later
  · intro code program n t _ hafter
    exact ⟨Loaded.kept_after hexecute hsound hafter, grows_after hafter⟩
  · intro hkind
    have hkind' := (grows_afterRuns (fresh kind) earlier).kind_eq.trans hkind
    have hunits := hsound.units_of_wrapping hkind'
    refine ⟨?_, hunits, hsound.not_isRangeFault hkind'⟩
    intro value hvalue
    have hwithin := hsound.cell_within value hvalue
    omega

end Machine

end TapeText
