import TapeText.Command.Arguments
import TapeText.Command.Run
import TapeText.Log.Directives

/-!
# TapeText.Main — the program

Collects the surroundings of the command, runs it, and carries out its
transcript. Of the files only those that the command may ask for are read.
-/

namespace TapeText.Program

open Command

/-- The environment variables that the command looks at. -/
def environmentNames : List String :=
  [Settings.headerVariable, Settings.promptVariable, "TEXT2BF_LOG", "XDG_CONFIG_HOME", "HOME"] ++
    Control.environmentNames

/-- The failure that an input error stands for. -/
def failureOf : IO.Error → ReadFailure
  | .noFileOrDirectory .. => .notFound
  | .inappropriateType _ 20 _ => .notADirectory
  | .inappropriateType .. => .isADirectory
  | .invalidArgument _ 36 _ => .nameTooLong
  | e => ⟨.other, toString e⟩

/-- The content of a file, or why it cannot be read. -/
def contentOf (path : Path) : IO (Except ReadFailure (List UInt8)) := do
  if path.contains 0 then
    return .error .nulInName
  try
    let content ← IO.FS.readBinFile (Text.Utf8.display path)
    return .ok content.data.toList
  catch e =>
    return .error (failureOf e)

/-- The bytes of the standard input up to its first line feed or its end, and
perhaps some more; or why it cannot be read that far. -/
def readInput : IO (Except ReadFailure (List UInt8)) := do
  let stream ← IO.getStdin
  let mut bytes := ByteArray.empty
  let mut open? := true
  try
    while open? do
      let more ← stream.read 4096
      bytes := bytes ++ more
      open? := !more.isEmpty && !more.data.contains Stream.feed
    return .ok bytes.data.toList
  catch e =>
    return .error (failureOf e)

/-- The surroundings of the program, before its standard input is read. -/
def invocation (arguments : List String) : IO Invocation := do
  let mut environment := []
  for name in environmentNames do
    if let some value ← IO.getEnv name then
      environment := (name, Text.Utf8.encode value) :: environment
  let bare : Invocation :=
    { program := "text2bf"
      arguments := arguments.map Text.Utf8.encode
      readArguments := Request.read
      readFilter := Log.Filter.ofText
      environment := fun name => environment.lookup name
      contentOf := fun _ => .error .notFound
      input := .ok []
      terminalInput := ← (← IO.getStdin).isTty
      terminalOutput := ← (← IO.getStdout).isTty
      terminalErrors := ← (← IO.getStderr).isTty }
  let asked := bare.request.toOption.bind (·.file)
  let paths := asked.toList ++ bare.settingsPath?.toList.map Text.Utf8.encode
  let contents ← paths.mapM fun path => return (path, ← contentOf path)
  return { bare with contentOf := fun path => (contents.lookup path).getD (.error .notFound) }

end TapeText.Program

open TapeText TapeText.Command in
/-- Print the program for one line of text. -/
def main (arguments : List String) : IO UInt32 := do
  let surroundings ← Program.invocation arguments
  let transcript ← match start surroundings with
    | .error transcript => pure transcript
    | .ok awaiting =>
      IO.eprint awaiting.errors
      let input ← if awaiting.source = .stdin then Program.readInput else pure (.ok [])
      pure (awaiting.finish { surroundings with input := input })
  IO.print transcript.output
  IO.eprint transcript.errors
  return transcript.exit.toUInt32
