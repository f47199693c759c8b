import TapeText.Proofs.Machine.Tape

/-!
# TapeText.Proofs.Execution.View — the two cells of a program

A program for a line of text only knows two cells of the machine it runs on:
the counter, where its pointer starts, and the register to the right of it. A
view keeps their values as plain integers. The machine shows the view if its
cells hold what cells of its kind make of these values, and if it agrees with
the machine that the program started on everywhere else.

* `View`, `Shows` — the two cells, and a machine that holds them;
* `Shows.toRegister`, `Shows.toCounter`, `Shows.adjust`, `Shows.print` — the
  instructions keep machine and view together.
-/

namespace TapeText

namespace CellKind

/-- Storing a value before adding to it changes nothing. -/
theorem store_store_add (kind : CellKind) (value amount : Int) :
    kind.store (kind.store value + amount) = kind.store (value + amount) := by
  cases kind with
  | unbounded => rfl
  -- a remainder may be taken before or after the addition
  | wrapping16 => exact Int.emod_add_emod value 65536 amount

/-- Cells of both kinds hold the units as they are. -/
theorem store_of_unit (kind : CellKind) {value : Int} (h : 0 ≤ value ∧ value ≤ 65535) :
    kind.store value = value := by
  cases kind with
  | unbounded => rfl
  | wrapping16 => exact Int.emod_eq_of_lt h.1 (by omega)

end CellKind

namespace Execution

/-- What a program knows about the machine it runs on. -/
structure View where
  /-- The pointer is on the register; otherwise it is on the counter. -/
  onRegister : Bool
  /-- The tape has been made to reach the register. -/
  wide : Bool
  counter : Int
  register : Int
  printed : Array UInt16

namespace View

/-- The value under the pointer. -/
def current (v : View) : Int := if v.onRegister then v.register else v.counter

/-- Add to the value under the pointer. -/
def adjust (v : View) (amount : Int) : View :=
  if v.onRegister then { v with register := v.register + amount }
  else { v with counter := v.counter + amount }

/-- Print the value under the pointer as cells of a kind hold it. -/
def print (v : View) (kind : CellKind) : View :=
  { v with printed := v.printed.push (kind.store v.current).toNat.toUInt16 }

theorem counter_adjust (v : View) (amount : Int) :
    (v.adjust amount).counter = if v.onRegister then v.counter else v.counter + amount := by
  unfold adjust
  split <;> rfl

theorem register_adjust (v : View) (amount : Int) :
    (v.adjust amount).register = if v.onRegister then v.register + amount else v.register := by
  unfold adjust
  split <;> rfl

theorem adjust_zero (v : View) : v.adjust 0 = v := by
  unfold adjust
  split <;> simp only [Int.add_zero]

theorem adjust_adjust (v : View) (a b : Int) : (v.adjust a).adjust b = v.adjust (a + b) := by
  unfold adjust
  cases v.onRegister <;> simp [Int.add_assoc]

end View

/-- The machine holds the view, and is what the program started on apart from
that. -/
structure Shows (base : Machine) (v : View) (m : Machine) : Prop where
  kind_eq : m.kind = base.kind
  inside : m.Inside
  pointer_eq : m.pointer = base.pointer + if v.onRegister then 1 else 0
  size_eq : m.cells.size =
    if v.wide then max base.cells.size (base.pointer + 2) else base.cells.size
  counter_eq : m.cell base.pointer = base.kind.store v.counter
  register_eq : m.cell (base.pointer + 1) = base.kind.store v.register
  cell_eq : ∀ i, i ≠ base.pointer → i ≠ base.pointer + 1 → m.cell i = base.cell i
  printed_eq : m.printed = v.printed

/-- The view of a machine whose counter is zero. -/
def View.start (m : Machine) (register : Int) : View := ⟨false, false, 0, register, m.printed⟩

/-- A machine shows what it starts with. -/
theorem shows_start {m : Machine} {register : Int} (hinside : m.Inside)
    (hcounter : m.cell m.pointer = 0)
    (hregister : m.cell (m.pointer + 1) = m.kind.store register) :
    Shows m (View.start m register) m where
  kind_eq := rfl
  inside := hinside
  pointer_eq := rfl
  size_eq := rfl
  counter_eq := by
    rw [hcounter]
    exact (m.kind.store_of_unit (by decide)).symm
  register_eq := hregister
  cell_eq := fun _ _ _ => rfl
  printed_eq := rfl

namespace Shows

variable {base m : Machine} {v : View}

/-- Under the pointer is what the cell makes of the value of the view. -/
theorem current_eq (h : Shows base v m) : m.current = base.kind.store v.current := by
  rw [Machine.current_eq_cell, h.pointer_eq]
  unfold View.current
  cases v.onRegister with
  | false => exact h.counter_eq
  | true => exact h.register_eq

/-- A test for zero sees the value itself, as long as it is a unit. -/
theorem current_eq_of_unit (h : Shows base v m) (hunit : 0 ≤ v.current ∧ v.current ≤ 65535) :
    m.current = v.current := by
  rw [h.current_eq, base.kind.store_of_unit hunit]

/-- A step to the right from the counter. It may be the one that makes the register. -/
theorem toRegister (h : Shows base v m) (hon : v.onRegister = false) :
    Shows base { v with onRegister := true, wide := true } m.moveRight := by
  have hpointer := h.pointer_eq
  have hsize := h.size_eq
  rw [hon] at hpointer
  constructor
  · rw [Machine.kind_moveRight, h.kind_eq]
  · exact h.inside.execute '>'
  · rw [Machine.pointer_moveRight, hpointer]
    rfl
  · -- the first time, the tape may have to grow
    rw [Machine.size_moveRight h.inside, hsize, hpointer]
    cases v.wide with
    | false => rfl
    | true =>
        show max (max base.cells.size (base.pointer + 2)) (base.pointer + 2) = max _ _
        omega
  · rw [Machine.cell_moveRight, h.counter_eq]
  · rw [Machine.cell_moveRight, h.register_eq]
  · intro i hcounter hregister
    rw [Machine.cell_moveRight, h.cell_eq i hcounter hregister]
  · rw [Machine.printed_moveRight, h.printed_eq]

/-- On the register there is a cell to the left. -/
theorem pointer_ne_zero (h : Shows base v m) (hon : v.onRegister = true) : m.pointer ≠ 0 := by
  rw [h.pointer_eq, hon]
  exact Nat.succ_ne_zero _

theorem toCounter (h : Shows base v m) (hon : v.onRegister = true) :
    Shows base { v with onRegister := false } m.moveLeft := by
  have hpointer := h.pointer_eq
  rw [hon] at hpointer
  constructor
  · exact h.kind_eq
  · exact h.inside.execute '<'
  · show m.pointer - 1 = _
    rw [hpointer]
    rfl
  · exact h.size_eq
  · exact h.counter_eq
  · exact h.register_eq
  · exact h.cell_eq
  · exact h.printed_eq

/-- An adjustment changes the cell under the pointer, whichever it is. -/
theorem adjust (h : Shows base v m) (amount : Int) :
    Shows base (v.adjust amount) (m.adjust amount) := by
  have hpointer := h.pointer_eq
  have hcell : ∀ i, (m.adjust amount).cell i =
      if i = m.pointer then base.kind.store (m.cell i + amount) else m.cell i := by
    intro i
    rw [Machine.cell_adjust h.inside, h.kind_eq]
  have hinside : (m.adjust amount).Inside := by
    unfold Machine.Inside
    rw [Machine.size_adjust]
    exact h.inside
  have hsize := h.size_eq
  rw [← Machine.size_adjust m amount] at hsize
  unfold View.adjust
  cases hon : v.onRegister with
  | false =>
      -- the counter changes, and the register is another cell
      have hcounter : m.pointer = base.pointer := by rw [hpointer, hon]; rfl
      rw [hcounter] at hcell
      rw [if_neg Bool.false_ne_true]
      refine ⟨h.kind_eq, hinside, hcounter, hsize, ?_, ?_, ?_, h.printed_eq⟩
      · rw [hcell, if_pos rfl, h.counter_eq, CellKind.store_store_add]
      · rw [hcell, if_neg (Nat.succ_ne_self _), h.register_eq]
      · intro i hi hi'
        rw [hcell, if_neg hi, h.cell_eq i hi hi']
  | true =>
      -- the register changes, and the counter is another cell
      have hregister : m.pointer = base.pointer + 1 := by rw [hpointer, hon]; rfl
      rw [hregister] at hcell
      rw [if_pos rfl]
      refine ⟨h.kind_eq, hinside, hregister, hsize, ?_, ?_, ?_, h.printed_eq⟩
      · rw [hcell, if_neg (Nat.succ_ne_self _).symm, h.counter_eq]
      · rw [hcell, if_pos rfl, h.register_eq, CellKind.store_store_add]
      · intro i hi hi'
        rw [hcell, if_neg hi', h.cell_eq i hi hi']

/-- A print takes the value as the cell holds it. -/
theorem print (h : Shows base v m) : Shows base (v.print base.kind) m.print := by
  refine ⟨h.kind_eq, h.inside, h.pointer_eq, h.size_eq, h.counter_eq, h.register_eq,
    h.cell_eq, ?_⟩
  show m.printed.push _ = v.printed.push _
  rw [h.printed_eq, h.current_eq]

/-- At the left end of a tape that was no longer, the two cells are all of the
tape. -/
theorem cells_eq (h : Shows base v m) (hpointer : base.pointer = 0)
    (hsize : base.cells.size ≤ 2) (hwide : v.wide = true) :
    m.cells = #[base.kind.store v.counter, base.kind.store v.register] := by
  have hlength := h.size_eq
  have hcounter := h.counter_eq
  have hregister := h.register_eq
  rw [hpointer, hwide, if_pos rfl] at hlength
  rw [hpointer] at hcounter hregister
  apply Machine.cells_eq_of_cell
  · rw [hlength]
    exact Nat.max_eq_right hsize
  · intro i
    -- the counter, the register, and nothing behind them
    rcases i with _ | _ | i
    · exact hcounter
    · exact hregister
    · have hother := h.cell_eq (i + 2) (by omega) (by omega)
      rw [hother, Machine.cell_of_size_le (by omega)]
      rfl

end Shows

end Execution

end TapeText
