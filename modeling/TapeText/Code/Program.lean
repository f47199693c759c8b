import TapeText.Code.Segment
import TapeText.Code.Shifts
import TapeText.Text.Units

/-!
# TapeText.Code.Program — the program for a line of text

One segment per unit of the line, each taking the register from the unit
before; then one pass drops the cell moves that cancel where two segments
meet.
-/

namespace TapeText.Code

def segments (deltas : List Int) : List Char := deltas.flatMap segmentBy

/-- The program for `text` before the pass. -/
def rawProgram (text : String) : List Char := segments (Text.deltas (Text.units text))

/-- The program that prints `text` and a line feed. -/
def program (text : String) : List Char := dropPairs (rawProgram text)

@[simp] theorem segments_nil : segments [] = [] := rfl

@[simp] theorem segments_cons (delta : Int) (deltas : List Int) :
    segments (delta :: deltas) = segmentBy delta ++ segments deltas := rfl

@[simp] theorem segments_append (front back : List Int) :
    segments (front ++ back) = segments front ++ segments back :=
  List.flatMap_append

end TapeText.Code
