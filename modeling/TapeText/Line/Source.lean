import TapeText.Line.Stream

/-!
# TapeText.Line.Source — where the line comes from

The line comes from words given with the command, from a file, or from the
standard input. Words give a line even if they are empty; a file or the
standard input must hold at least one byte.
-/

namespace TapeText

/-- The bytes of a file name. -/
abbrev Path := List UInt8

/-- One of the places a line can come from. -/
inductive Source where
  /-- Words, joined with single spaces. -/
  | words (text : String)
  | file (path : Path)
  | stdin
deriving DecidableEq, Repr

namespace Source

/-- The source that the words and the file of a command select. No word and
no file select the standard input. -/
def select (words : List String) (file : Option Path) : Except LineError Source :=
  match words, file with
  | [], none => .ok .stdin
  | [], some path => .ok (.file path)
  | w :: ws, none => .ok (.words (" ".intercalate (w :: ws)))
  | _ :: _, some _ => .error .conflict

/-- The name of the source in messages. -/
def origin : Source → String
  | words _ => "arguments"
  | file path => Text.Utf8.display path
  | stdin => "stdin"

/-- The first line of what was read, or else why it could not be read. -/
def lineOf (origin : String) : Except ReadFailure (List UInt8) → Except LineError String
  | .ok bytes => (Stream.takeLine origin bytes).1
  | .error failure => .error (.unreadable origin failure)

/-- The first line of a source, given how files are read and what comes of
reading the standard input. -/
def firstLine (contentOf : Path → Except ReadFailure (List UInt8))
    (input : Except ReadFailure (List UInt8)) (source : Source) : Except LineError String :=
  match source with
  | words text => .ok (String.ofList (Text.firstLine text.toList))
  | file path => lineOf source.origin (contentOf path)
  | stdin => lineOf source.origin input

end Source

end TapeText
