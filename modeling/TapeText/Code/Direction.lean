/-!
# TapeText.Code.Direction — which way a value moves
-/

namespace TapeText.Code

/-- Which way a cell is moved. -/
inductive Direction where
  | up
  | down
deriving DecidableEq, Repr

namespace Direction

/-- The way that applies `delta`; zero counts as up. -/
def ofDelta (delta : Int) : Direction := if delta < 0 then .down else .up

/-- The instruction that moves a cell by one this way. -/
def symbol : Direction → Char
  | up => '+'
  | down => '-'

/-- `1` upwards and `-1` downwards. -/
def sign : Direction → Int
  | up => 1
  | down => -1

/-- A distance and its direction give back the delta. -/
theorem sign_ofDelta_mul_natAbs (delta : Int) : (ofDelta delta).sign * delta.natAbs = delta := by
  simp only [ofDelta]
  split <;> simp only [sign] <;> omega

end Direction

end TapeText.Code
