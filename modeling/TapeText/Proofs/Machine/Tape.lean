import TapeText.Machine.Basic

/-!
# TapeText.Proofs.Machine.Tape — the tape as a function

A cell that a run has not reached yet and a cell of value zero look the same
to every instruction. Read as a function that is zero beyond its end, the tape
is changed by `+` and `-` only; a move to a new cell changes nothing but its
length.

* `cell` — the tape as a function;
* `Inside` — the pointer is on the tape;
* what each instruction does to the pointer, the cells, the length and the
  range.
-/

namespace TapeText

/-- A wrapping cell holds a unit, whatever is stored in it. -/
theorem CellKind.store_wrapping16_unit (value : Int) :
    0 ≤ CellKind.wrapping16.store value ∧ CellKind.wrapping16.store value ≤ 65535 := by
  have hnonneg := Int.emod_nonneg value (by decide : (65536 : Int) ≠ 0)
  have hlt := Int.emod_lt_of_pos value (by decide : (0 : Int) < 65536)
  show 0 ≤ value % 65536 ∧ value % 65536 ≤ 65535
  omega

namespace Machine

/-- The value of cell `i`; cells beyond the end of the tape count as zero. -/
def cell (m : Machine) (i : Nat) : Int := m.cells.getD i 0

/-- The pointer is on the tape. -/
def Inside (m : Machine) : Prop := m.pointer < m.cells.size

variable {m : Machine}

theorem current_eq_cell (m : Machine) : m.current = m.cell m.pointer := rfl

/-- Behind its end the tape is zero. -/
theorem cell_of_size_le {i : Nat} (h : m.cells.size ≤ i) : m.cell i = 0 := by
  rw [cell, Array.getD_eq_getD_getElem?, Array.getElem?_eq_none h]
  rfl

/-- The length and the cells determine the tape. -/
theorem cells_eq_of_cell {tape : Array Int} (hsize : m.cells.size = tape.size)
    (hcell : ∀ i, m.cell i = tape.getD i 0) : m.cells = tape := by
  apply Array.ext hsize
  intro i h₁ h₂
  have h := hcell i
  simpa [cell, h₁, h₂] using h

theorem inside_fresh (kind : CellKind) : (fresh kind).Inside := Nat.one_pos

theorem cell_fresh (kind : CellKind) (i : Nat) : (fresh kind).cell i = 0 := by
  cases i with
  | zero => rfl
  | succ i => exact cell_of_size_le (Nat.succ_le_succ (Nat.zero_le i))

/-! ## Moves -/

@[simp] theorem kind_moveRight (m : Machine) : m.moveRight.kind = m.kind := by
  unfold moveRight
  split <;> rfl

@[simp] theorem pointer_moveRight (m : Machine) : m.moveRight.pointer = m.pointer + 1 := by
  unfold moveRight
  split <;> rfl

@[simp] theorem printed_moveRight (m : Machine) : m.moveRight.printed = m.printed := by
  unfold moveRight
  split <;> rfl

@[simp] theorem low_moveRight (m : Machine) : m.moveRight.low = m.low := by
  unfold moveRight
  split <;> rfl

@[simp] theorem high_moveRight (m : Machine) : m.moveRight.high = m.high := by
  unfold moveRight
  split <;> rfl

/-- A new cell holds the zero that was read there before. -/
@[simp] theorem cell_moveRight (m : Machine) (i : Nat) : m.moveRight.cell i = m.cell i := by
  unfold moveRight
  split
  · simp only [cell, Array.getD_eq_getD_getElem?, Array.getElem?_push]
    split
    · next h => simp [h]
    · rfl
  · rfl

/-- A step to the right makes the tape reach the next cell. -/
theorem size_moveRight (h : m.Inside) :
    m.moveRight.cells.size = max m.cells.size (m.pointer + 2) := by
  unfold Inside at h
  unfold moveRight
  split
  · next hend =>
    simp only [Array.size_push]
    omega
  · next hend =>
    show m.cells.size = _
    omega

@[simp] theorem cell_moveLeft (m : Machine) (i : Nat) : m.moveLeft.cell i = m.cell i := rfl

/-- To the left and back again. -/
theorem moveRight_moveLeft (h : m.Inside) (hpointer : m.pointer ≠ 0) :
    m.moveLeft.moveRight = m := by
  have hback : m.pointer - 1 + 1 = m.pointer := Nat.succ_pred_eq_of_ne_zero hpointer
  unfold moveRight moveLeft
  simp only [hback]
  -- the cell on the right is there, so the tape does not grow
  rw [if_neg (Nat.ne_of_lt h)]

/-! ## Adjustments and prints -/

/-- An adjustment changes the cell under the pointer and no other. -/
theorem cell_adjust (h : m.Inside) (amount : Int) (i : Nat) :
    (m.adjust amount).cell i =
      if i = m.pointer then m.kind.store (m.cell i + amount) else m.cell i := by
  unfold Inside at h
  simp only [cell, adjust, current, Array.getD_eq_getD_getElem?, Array.getElem?_setIfInBounds]
  -- the cell that is stored to, and any other
  by_cases hi : i = m.pointer
  · subst hi
    simp [h]
  · simp [hi, Ne.symm hi]

@[simp] theorem size_adjust (m : Machine) (amount : Int) :
    (m.adjust amount).cells.size = m.cells.size := by
  simp [adjust]

/-- The cell under the pointer holds what its kind makes of the sum. -/
theorem current_adjust (h : m.Inside) (amount : Int) :
    (m.adjust amount).current = m.kind.store (m.current + amount) := by
  show (m.adjust amount).cell m.pointer = _
  rw [cell_adjust h, if_pos rfl]
  rfl

/-! ## All instructions -/

/-- What an instruction is: one of the five that change the machine, or one
that leaves it alone. -/
theorem execute_cases (m : Machine) (c : Char) :
    (c = '>' ∧ m.execute c = m.moveRight) ∨ (c = '<' ∧ m.execute c = m.moveLeft) ∨
    (c = '+' ∧ m.execute c = m.adjust 1) ∨ (c = '-' ∧ m.execute c = m.adjust (-1)) ∨
    (c = '.' ∧ m.execute c = m.print) ∨
    (c ≠ '>' ∧ c ≠ '<' ∧ c ≠ '+' ∧ c ≠ '-' ∧ c ≠ '.' ∧ m.execute c = m) := by
  unfold execute
  split <;> simp_all

/-- The three faults an instruction can have. -/
theorem fault?_cases {c : Char} {ip : Nat} {fault : Fault} (h : m.fault? c ip = some fault) :
    (c = '<' ∧ m.pointer = 0 ∧ fault = .pointerUnderflow ip) ∨
    (c = '.' ∧ ¬ (0 ≤ m.current ∧ m.current ≤ 65535) ∧
      fault = .cellOutOfRange ip m.current) ∨
    ((∀ (m' : Machine) (ip' : Nat), m'.fault? c ip' = some (.invalidCharacter c ip')) ∧
      fault = .invalidCharacter c ip) := by
  unfold fault? at h ⊢
  split at h <;> simp_all

/-- An instruction has neither the fault of a rejected program nor that of a run without
steps. -/
theorem ne_of_fault? {c : Char} {ip : Nat} {fault : Fault} (h : m.fault? c ip = some fault) :
    (∀ k, fault ≠ .unmatchedBracket k) ∧ ∀ limit, fault ≠ .stepLimitExceeded limit := by
  rcases fault?_cases h with ⟨-, -, rfl⟩ | ⟨-, -, rfl⟩ | ⟨-, rfl⟩ <;> simp

/-- The pointer never leaves the tape. -/
theorem Inside.execute (h : m.Inside) (c : Char) : (m.execute c).Inside := by
  unfold Inside at h
  rcases execute_cases m c with ⟨-, he⟩ | ⟨-, he⟩ | ⟨-, he⟩ | ⟨-, he⟩ | ⟨-, he⟩ |
    ⟨-, -, -, -, -, he⟩ <;> rw [he]
  · -- only a step to the right can leave the tape, and it makes the cell it goes to
    show m.moveRight.pointer < m.moveRight.cells.size
    rw [size_moveRight h, pointer_moveRight]
    omega
  · show m.pointer - 1 < m.cells.size
    omega
  · show m.pointer < (m.adjust 1).cells.size
    rwa [size_adjust]
  · show m.pointer < (m.adjust (-1)).cells.size
    rwa [size_adjust]
  · exact h
  · exact h

/-- Only the value that an instruction stores can widen the range. -/
theorem range_execute (h : m.Inside) (c : Char) :
    min m.low (m.execute c).current ≤ (m.execute c).low ∧
      (m.execute c).high ≤ max m.high (m.execute c).current := by
  rcases execute_cases m c with ⟨-, he⟩ | ⟨-, he⟩ | ⟨-, he⟩ | ⟨-, he⟩ | ⟨-, he⟩ |
    ⟨-, -, -, -, -, he⟩ <;> rw [he]
  · -- only the two adjustments store anything
    rw [low_moveRight, high_moveRight]
    omega
  · show min m.low _ ≤ m.low ∧ m.high ≤ max m.high _
    omega
  · rw [current_adjust h]
    exact ⟨Int.le_refl _, Int.le_refl _⟩
  · rw [current_adjust h]
    exact ⟨Int.le_refl _, Int.le_refl _⟩
  · show min m.low _ ≤ m.low ∧ m.high ≤ max m.high _
    omega
  · omega

end Machine

end TapeText
