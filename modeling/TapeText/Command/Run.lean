import TapeText.Command.Records
import TapeText.Command.Request
import TapeText.Command.Usage
import TapeText.Settings.File
import TapeText.Terminal.Control
import TapeText.Terminal.Plain
import TapeText.Terminal.Style

/-!
# TapeText.Command.Run — the command

The command reads one line and prints the program for it. An invocation holds
everything the command can see, and a transcript everything it does, so a run
is a function from one to the other. How the words of a command line and the
text of a log filter are to be understood is not for the command to say: an
invocation brings it along.

A run has two parts, because the prompt has to be shown before a line is read:
`start` goes up to the point where the line is needed, and `Awaiting.finish`
goes on from there.
-/

namespace TapeText.Command

/-- The surroundings of a command. -/
structure Invocation where
  /-- The name the command was called by. -/
  program : String
  arguments : List (List UInt8)
  /-- How arguments are understood: what they ask for, or why they are not
  accepted. -/
  readArguments : List (List UInt8) → Except String Request
  /-- How the text of a log filter is understood. -/
  readFilter : String → Log.Filter
  /-- The values of environment variables. -/
  environment : String → Option (List UInt8)
  /-- The content of the file at a path, or why it cannot be opened or read. -/
  contentOf : Path → Except ReadFailure (List UInt8)
  /-- What the standard input holds, through its first line feed at least or else
  up to its end; or why it cannot be read that far. -/
  input : Except ReadFailure (List UInt8)
  terminalInput : Bool
  terminalOutput : Bool
  terminalErrors : Bool

/-- What a command does: its exit code and what it prints on its two output
streams. -/
structure Transcript where
  exit : Nat
  output : String
  errors : String
deriving DecidableEq, Repr

/-! ## Environment and settings -/

namespace Invocation

def request (i : Invocation) : Except String Request := i.readArguments i.arguments

/-- The text of an environment variable. One that is not UTF-8 counts as
unset. -/
def lookup (i : Invocation) (name : String) : Option String :=
  (i.environment name).bind Text.Utf8.text?

def filter (i : Invocation) : Log.Filter :=
  match i.lookup "TEXT2BF_LOG" with
  | some text => i.readFilter text
  | none => .standard

/-- Records as they are printed. Each is in its plain form, unless the error
stream takes control sequences. -/
def log (i : Invocation) (records : List Log.Record) : String :=
  let taken := Control.isTaken i.environment i.terminalErrors
  String.join ((i.filter.select records).map fun r =>
    if taken then r.line else Plain.ofText r.line)

/-- A name inside a directory. -/
def inside (directory name : String) : String :=
  if directory = "" then name
  else if directory.toList.getLast? = some '/' then directory ++ name
  else directory ++ "/" ++ name

def settingsFileName : String := "text2bf.toml"

/-- The settings file: in the configuration directory if one is set, else in
the usual place below the home directory. An empty home directory is none. -/
def settingsPath? (i : Invocation) : Option String :=
  match i.lookup "XDG_CONFIG_HOME" with
  | some directory => some (inside directory settingsFileName)
  | none =>
    ((i.lookup "HOME").filter (· ≠ "")).map fun home =>
      inside (inside home ".config") settingsFileName

/-- The content of the settings file, with its path. A file that cannot be read
or is not UTF-8 counts as missing. -/
def settingsFile? (i : Invocation) : Option (String × String) := do
  let path ← i.settingsPath?
  let bytes ← (i.contentOf (Text.Utf8.encode path)).toOption
  let content ← Text.Utf8.text? bytes
  return (path, content)

def preferences (i : Invocation) : Preferences :=
  match i.settingsFile? with
  | some (_, content) => .ofContent content
  | none => {}

def settings (i : Invocation) (request : Request) : Settings :=
  .resolve request.header request.noPrompt i.lookup i.preferences

end Invocation

/-! ## Parts of the output -/

def promptText : String := "Enter string: "

def headerText : String := "Generated Brainfuck code:"

/-- What the command prints for a line. -/
def outputFor (settings : Settings) (terminalOutput : Bool) (line : String) : String :=
  let header :=
    if settings.header then Style.header.paintIf terminalOutput headerText ++ "\n" else ""
  header ++ String.ofList (Code.program line) ++ "\n"

/-- The log of what happens before a line is read. -/
def openingLog (i : Invocation) (settings : Settings) : String :=
  let loaded := i.settingsFile?.toList.map fun (path, _) => loadedRecord path
  i.log (loaded ++ [settingsRecord settings])

/-- The prompt, if it is to be shown. -/
def promptFor (i : Invocation) (settings : Settings) (source : Source) : String :=
  if source = .stdin ∧ settings.prompt ∧ i.terminalInput then
    Style.prompt.paintIf i.terminalErrors promptText
  else
    ""

/-! ## Running -/

/-- A command that is about to read its line. -/
structure Awaiting where
  source : Source
  settings : Settings
  /-- What has been printed on the error stream. -/
  errors : String

/-- Run up to the point where the line is needed. -/
def start (i : Invocation) : Except Transcript Awaiting :=
  match i.request with
  | .error refusal => .error ⟨2, "", s!"error: {refusal}\n"⟩
  | .ok request =>
    if request.help then
      .error ⟨0, "", usage i.program⟩
    else
      let settings := i.settings request
      let opening := openingLog i settings
      match Source.select request.words request.file with
      | .error e =>
        .error ⟨2, "", opening ++ s!"{i.program}: {e.message}\n" ++ usage i.program⟩
      | .ok source => .ok ⟨source, settings, opening ++ promptFor i settings source⟩

/-- Read the line and print its program. Only what comes after the beginning is
in the result. -/
def Awaiting.finish (a : Awaiting) (i : Invocation) : Transcript :=
  match a.source.firstLine i.contentOf i.input with
  | .ok line =>
    ⟨0, outputFor a.settings i.terminalOutput line, i.log (programRecords line)⟩
  | .error e => ⟨1, "", e.report i.program⟩

/-- Run the command. -/
def run (i : Invocation) : Transcript :=
  match start i with
  | .error transcript => transcript
  | .ok awaiting =>
    let rest := awaiting.finish i
    { rest with errors := awaiting.errors ++ rest.errors }

end TapeText.Command
