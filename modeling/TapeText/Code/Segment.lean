import TapeText.Code.Direction
import TapeText.Loop.Plan

/-!
# TapeText.Code.Segment — code that prints one unit

Programs are written in Brainfuck and use two cells: the counter, where the
pointer rests between segments, and the register to its right, which holds the
unit that was printed last. A segment moves the register to the next unit,
prints it, and comes back to the counter.

A short move is written out. A longer one is a loop that counts the counter
down to zero and moves the register by one stride per round, followed by the
correction of the plan.
-/

namespace TapeText.Code

/-- How far the register lies to the right of the counter. -/
def registerOffset : Nat := 1

/-- The longest move that is written out without a loop. -/
def directLimit : Nat := 12

def toRegister : List Char := List.replicate registerOffset '>'

def toCounter : List Char := List.replicate registerOffset '<'

def steps (direction : Direction) (count : Nat) : List Char :=
  List.replicate count direction.symbol

/-- The steps that move a cell by `delta`. -/
def stepsBy (delta : Int) : List Char := steps (.ofDelta delta) delta.natAbs

/-- A segment without a loop. -/
def directSegment (magnitude : Nat) (direction : Direction) : List Char :=
  toRegister ++ steps direction magnitude ++ '.' :: toCounter

/-- A segment whose move goes through the loop of a plan. -/
def loopSegment (plan : Loop.Plan) (direction : Direction) : List Char :=
  steps .up plan.rounds ++
    '[' :: (toRegister ++ steps direction plan.stride ++ toCounter ++ ['-', ']']) ++
    toRegister ++ stepsBy (direction.sign * plan.correction) ++ '.' :: toCounter

/-- The segment that moves the register by `magnitude` and prints it. -/
def segment (magnitude : Nat) (direction : Direction) : List Char :=
  if magnitude ≤ directLimit then directSegment magnitude direction
  else loopSegment (.best magnitude) direction

/-- The segment that applies `delta` to the register and prints it. -/
def segmentBy (delta : Int) : List Char := segment delta.natAbs (.ofDelta delta)

@[simp] theorem length_steps (direction : Direction) (count : Nat) :
    (steps direction count).length = count :=
  List.length_replicate

/-- Beside its steps a segment has two moves and a print. -/
theorem length_directSegment (magnitude : Nat) (direction : Direction) :
    (directSegment magnitude direction).length = magnitude + 3 := by
  simp [directSegment, toRegister, toCounter, registerOffset]

/-- Beside the symbols of its plan a segment with a loop has eight. -/
theorem length_loopSegment (plan : Loop.Plan) (direction : Direction) :
    (loopSegment plan direction).length =
      plan.rounds + plan.stride + plan.correction.natAbs + 8 := by
  have hsign : (direction.sign * plan.correction).natAbs = plan.correction.natAbs := by
    cases direction <;> simp [Direction.sign]
  simp [loopSegment, stepsBy, toRegister, toCounter, registerOffset, hsign]
  omega

end TapeText.Code
