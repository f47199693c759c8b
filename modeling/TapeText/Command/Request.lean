import TapeText.Line.Source

/-!
# TapeText.Command.Request — what a command is asked to do

Everything that the command goes by in its arguments, whatever they looked like:
the file and the words that a line can come from, and the flags.
-/

namespace TapeText.Command

/-- What a command is asked to do. -/
structure Request where
  file : Option Path := none
  header : Bool := false
  noPrompt : Bool := false
  help : Bool := false
  words : List String := []
deriving DecidableEq, Repr

end TapeText.Command
