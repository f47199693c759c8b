/-!
# TapeText.Machine.Basic — the tape machine

The machine that runs Brainfuck programs without input: a row of cells that
grows to the right, a pointer into it, and the units printed so far. Cells
hold integers, either without bounds or modulo 2^16. The machine also keeps the
smallest and the largest value that a cell has held.

* `fault?` — why an instruction cannot be executed;
* `execute` — what it does to the machine otherwise;
* `next` — the position of the instruction after it.
-/

namespace TapeText

/-- How cells hold values. -/
inductive CellKind where
  /-- Any integer. -/
  | unbounded
  /-- Integers modulo 2^16, from `0` to `65535`. -/
  | wrapping16
deriving DecidableEq, Repr

/-- The value a cell holds after `value` is stored in it. -/
def CellKind.store : CellKind → Int → Int
  | unbounded, value => value
  | wrapping16, value => value % 65536

/-- Why a run stops before the end of its program. Positions count characters
from the start of the program. -/
inductive Fault where
  /-- A bracket has no partner. -/
  | unmatchedBracket (ip : Nat)
  /-- A move to the left of the first cell. -/
  | pointerUnderflow (ip : Nat)
  /-- A character that is no instruction. -/
  | invalidCharacter (ch : Char) (ip : Nat)
  /-- A print of a value that is no 16-bit unit. -/
  | cellOutOfRange (ip : Nat) (value : Int)
  /-- The run was given too few steps. -/
  | stepLimitExceeded (limit : Nat)
deriving DecidableEq, Repr

/-- A tape machine between two instructions. -/
structure Machine where
  kind : CellKind
  cells : Array Int
  pointer : Nat
  printed : Array UInt16
  /-- The smallest value a cell has held. -/
  low : Int
  /-- The largest value a cell has held. -/
  high : Int
deriving DecidableEq, Repr

namespace Machine

/-- A machine with a single cell of value zero. -/
def fresh (kind : CellKind) : Machine := ⟨kind, #[0], 0, #[], 0, 0⟩

def current (m : Machine) : Int := m.cells.getD m.pointer 0

/-! ## Instructions -/

/-- Move to the right, onto a new cell of value zero at the end of the tape. -/
def moveRight (m : Machine) : Machine :=
  if m.pointer + 1 = m.cells.size then
    { m with pointer := m.pointer + 1, cells := m.cells.push 0 }
  else
    { m with pointer := m.pointer + 1 }

def moveLeft (m : Machine) : Machine := { m with pointer := m.pointer - 1 }

/-- Add `amount` to the current cell. -/
def adjust (m : Machine) (amount : Int) : Machine :=
  let value := m.kind.store (m.current + amount)
  { m with
    cells := m.cells.setIfInBounds m.pointer value
    low := min m.low value
    high := max m.high value }

/-- Print the current cell as a unit. -/
def print (m : Machine) : Machine :=
  { m with printed := m.printed.push m.current.toNat.toUInt16 }

/-- Why the instruction `c` at `ip` cannot be executed, if it cannot. -/
def fault? (m : Machine) (c : Char) (ip : Nat) : Option Fault :=
  match c with
  | '<' => if m.pointer = 0 then some (.pointerUnderflow ip) else none
  | '.' =>
    if 0 ≤ m.current ∧ m.current ≤ 65535 then none else some (.cellOutOfRange ip m.current)
  | '>' | '+' | '-' | '[' | ']' => none
  | _ => some (.invalidCharacter c ip)

/-- What the instruction `c` does to the machine. -/
def execute (m : Machine) (c : Char) : Machine :=
  match c with
  | '>' => m.moveRight
  | '<' => m.moveLeft
  | '+' => m.adjust 1
  | '-' => m.adjust (-1)
  | '.' => m.print
  | _ => m

/-- The position after the instruction `c` at `ip`. An opening bracket skips
its loop on zero and a closing one returns to it otherwise; both then go on
behind the partner. -/
def next (m : Machine) (c : Char) (ip : Nat) (partner : Option Nat) : Nat :=
  match c with
  | '[' => if m.current = 0 then partner.getD ip + 1 else ip + 1
  | ']' => if m.current = 0 then ip + 1 else partner.getD ip + 1
  | _ => ip + 1

/-- No instruction shortens the tape. -/
theorem size_cells_le_execute (m : Machine) (c : Char) :
    m.cells.size ≤ (m.execute c).cells.size := by
  simp only [execute]
  split
  · simp only [moveRight]
    split
    · simp
    · exact Nat.le_refl _
  · exact Nat.le_refl _
  · simp [adjust]
  · simp [adjust]
  · exact Nat.le_refl _
  · exact Nat.le_refl _

end Machine

end TapeText
