/-!
# TapeText.Terminal.Style — coloured text on terminals

A style is set by an escape sequence before a text and reset by another one
behind it.
-/

namespace TapeText

/-- A foreground colour, and whether the text is bold. -/
structure Style where
  bold : Bool := false
  red : UInt8
  green : UInt8
  blue : UInt8
deriving DecidableEq, Repr

namespace Style

/-- The style of the prompt: bold mauve. -/
def prompt : Style where
  bold := true
  red := 203
  green := 166
  blue := 247

/-- The style of the header line: a dim grey. -/
def header : Style where
  red := 108
  green := 112
  blue := 134

/-- The sequence that sets the style. -/
def start (s : Style) : String :=
  "\x1b[" ++ (if s.bold then "1;" else "") ++ s!"38;2;{s.red};{s.green};{s.blue}m"

/-- The sequence that resets every style. -/
def reset : String := "\x1b[0m"

def paint (s : Style) (text : String) : String := s.start ++ text ++ reset

/-- A text in a style on a terminal, and plain elsewhere. -/
def paintIf (s : Style) (terminal : Bool) (text : String) : String :=
  if terminal then s.paint text else text

end Style

end TapeText
