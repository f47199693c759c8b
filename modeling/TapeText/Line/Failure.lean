/-!
# TapeText.Line.Failure — why there is no line

A line cannot be had when its source cannot be read, when the source is at its
end, or when two sources are named at once. Each cause has one message, and a
report adds a hint where there is something to be done about it.
-/

namespace TapeText

/-- The kinds of read failure that are told apart. -/
inductive FailureKind where
  | notFound
  | isADirectory
  | notADirectory
  | invalidFilename
  | invalidInput
  | invalidData
  | other
deriving DecidableEq, Repr

/-- A failure to read, with the reason in words. -/
structure ReadFailure where
  kind : FailureKind
  reason : String
deriving DecidableEq, Repr

namespace ReadFailure

def notFound : ReadFailure := ⟨.notFound, "No such file or directory (os error 2)"⟩

def notADirectory : ReadFailure := ⟨.notADirectory, "Not a directory (os error 20)"⟩

def isADirectory : ReadFailure := ⟨.isADirectory, "Is a directory (os error 21)"⟩

def nameTooLong : ReadFailure := ⟨.invalidFilename, "File name too long (os error 36)"⟩

def nulInName : ReadFailure := ⟨.invalidInput, "file name contained an unexpected NUL byte"⟩

/-- The bytes of a line are not UTF-8. -/
def malformedText : ReadFailure := ⟨.invalidData, "stream did not contain valid UTF-8"⟩

end ReadFailure

/-- Why no line could be read. -/
inductive LineError where
  /-- Opening or reading the source failed. -/
  | unreadable (origin : String) (failure : ReadFailure)
  /-- The source was at its end. -/
  | noLine (origin : String)
  /-- Words and a file were both given. -/
  | conflict
deriving DecidableEq, Repr

namespace LineError

def message : LineError → String
  | unreadable origin failure => s!"failed to read {origin}: {failure.reason}"
  | noLine origin => s!"no input line available from {origin}"
  | conflict => "cannot use positional TEXT together with --file"

/-- What might help, as an indented line. -/
def hint : LineError → String
  | unreadable _ ⟨.invalidData, _⟩ => "  input must be UTF-8 text\n"
  | noLine _ => "  pass TEXT as arguments, or pipe a line to stdin\n"
  | _ => ""

/-- The error as `program` reports it. -/
def report (program : String) (e : LineError) : String :=
  s!"{program}: {e.message}\n" ++ e.hint

end LineError

end TapeText
