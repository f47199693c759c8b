import TapeText.Line.Failure
import TapeText.Text.Lines
import TapeText.Text.Utf8

/-!
# TapeText.Line.Stream — lines of a byte stream

A stream is the list of the bytes that are still to be read. Taking a line
cuts the stream behind its first line feed; the line has to be UTF-8, and it
loses its ending. A line that is not UTF-8 is taken off the stream all the
same.
-/

namespace TapeText.Stream

/-- The line feed as a byte. -/
def feed : UInt8 := 10

/-- The text of one part of a stream, without its ending. -/
def decodeLine (origin : String) (piece : List UInt8) : Except LineError String :=
  match Text.Utf8.text? piece with
  | some text => .ok (String.ofList (Text.withoutEnding '\n' '\r' text.toList))
  | none => .error (.unreadable origin .malformedText)

/-- Take the next line off a stream. -/
def takeLine (origin : String) (bytes : List UInt8) : Except LineError String × List UInt8 :=
  match bytes with
  | [] => (.error (.noLine origin), [])
  | b :: rest =>
    (decodeLine origin (Text.firstPiece feed (b :: rest)), Text.afterFirst feed (b :: rest))

/-- The results of taking `count` lines one after the other. -/
def takeLines (origin : String) : (count : Nat) → List UInt8 → List (Except LineError String)
  | 0, _ => []
  | count + 1, bytes =>
    (takeLine origin bytes).1 :: takeLines origin count (takeLine origin bytes).2

@[simp] theorem takeLine_nil (origin : String) :
    takeLine origin [] = (.error (.noLine origin), []) := rfl

@[simp] theorem length_takeLines (origin : String) (count : Nat) (bytes : List UInt8) :
    (takeLines origin count bytes).length = count := by
  induction count generalizing bytes with
  | zero => rfl
  | succ count ih => rw [takeLines, List.length_cons, ih]

end TapeText.Stream
