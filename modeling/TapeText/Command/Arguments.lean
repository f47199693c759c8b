import TapeText.Command.Refusal
import TapeText.Command.Request

/-!
# TapeText.Command.Arguments — the words of a command line

Options come first. The first word that is neither an option nor the path of
one begins the text, and from there on every word is text; `--` ends the
options too. Short options can be joined to a cluster, in which the rest after
`f` is its path.

A path that stands in a word of its own is only examined when the next option
or word is met, so a complaint about what follows can come before one about the
path.
-/

namespace TapeText.Command

/-! ## Words of the command line -/

/-- The forms of a word among the options. -/
inductive Word where
  /-- The word `--`. -/
  | endOfOptions
  /-- What follows `--`. -/
  | long (body : List UInt8)
  /-- What follows a single `-`. -/
  | cluster (body : List UInt8)
  /-- Any other word, a lone `-` among them. -/
  | plain
deriving DecidableEq, Repr

/-- The byte that begins an option. -/
def dash : UInt8 := 45

/-- The byte between an option and its value. -/
def equals : UInt8 := 61

def Word.ofBytes (bytes : List UInt8) : Word :=
  if bytes.head? ≠ some dash ∨ bytes = [dash] then .plain
  else if bytes = [dash, dash] then .endOfOptions
  else if bytes.drop 1 |>.head? |> (· = some dash) then .long (bytes.drop 2)
  else .cluster (bytes.drop 1)

/-! ## Options -/

/-- The path of a file option whose value is a word of its own. -/
inductive PendingPath where
  | absent
  /-- The option was the last word. -/
  | awaited
  /-- The word after the option. -/
  | given (path : Path)
deriving DecidableEq, Repr

/-- What has been learned from the options so far. -/
structure Options where
  flags : List Flag := []
  file : Option Path := none
  pending : PendingPath := .absent
deriving DecidableEq, Repr

namespace Options

def setPath (o : Options) (path : Path) : Except Refusal Options :=
  if o.file.isSome then .error .repeatedPath
  else if path = [] then .error .missingPath
  else .ok { o with file := some path, pending := .absent }

/-- Take in the path that is still pending. -/
def settle (o : Options) : Except Refusal Options :=
  match o.pending with
  | .absent => .ok o
  | .awaited => .error .missingPath
  | .given path => o.setPath path

def setFlag (flag : Flag) (o : Options) : Except Refusal Options := do
  let o ← o.settle
  if flag ∈ o.flags then throw (.repeatedFlag flag)
  return { o with flags := flag :: o.flags }

/-- A file option with its path in the same word. -/
def attachPath (path : Path) (o : Options) : Except Refusal Options := do
  let o ← o.settle
  o.setPath path

/-- A file option whose path is the next word. -/
def awaitPath (o : Options) : Except Refusal Options := do
  let o ← o.settle
  return { o with pending := .awaited }

/-- A long option, with a value if there is an equals sign. -/
def long (body : List UInt8) (o : Options) : Except Refusal Options :=
  let name := body.takeWhile (· != equals)
  let value? := if equals ∈ body then some ((body.dropWhile (· != equals)).drop 1) else none
  match Text.Utf8.text? name with
  | some "file" =>
    match value? with
    | some path => o.attachPath path
    | none => o.awaitPath
  | some name =>
    match Flag.ofName? ("--" ++ name), value? with
    | some flag, none => o.setFlag flag
    | some flag, some value => .error (.unexpectedValue flag (Text.Utf8.display value))
    | none, _ => .error (.unexpectedArgument ("--" ++ name))
  | none => .error (.unexpectedArgument ("--" ++ Text.Utf8.display name))

/-- A cluster of short options: characters, and then bytes that are not
UTF-8. -/
def cluster (malformed : List UInt8) : List Char → Options → Except Refusal Options
  | [], o =>
    if malformed = [] then .ok o
    else .error (.unexpectedArgument ("-" ++ Text.Utf8.display malformed))
  | c :: rest, o =>
    if c = 'h' then do
      let o ← o.setFlag .help
      cluster malformed rest o
    else if c = 'f' then
      let value := Text.Utf8.encode (String.ofList rest) ++ malformed
      if value = [] then o.awaitPath
      else if value.head? = some equals then o.attachPath (value.drop 1)
      else o.attachPath value
    else
      .error (.unexpectedArgument ("-" ++ String.ofList [c]))

/-- Read the options at the front of a command line. What is left are the words
of the text. -/
def scan : List (List UInt8) → Options → Except Refusal (Options × List (List UInt8))
  | [], o => do return (← o.settle, [])
  | word :: rest, o =>
    match Word.ofBytes word with
    | .endOfOptions => do return (← o.settle, rest)
    | .long body => do scan rest (← o.long body)
    | .cluster body => do
      let (cs, malformed) := Text.Utf8.decodeWhileValid body
      scan rest (← cluster malformed cs o)
    | .plain =>
      match o.pending with
      | .awaited => scan rest { o with pending := .given word }
      | _ => do return (← o.settle, word :: rest)

end Options

/-! ## Requests -/

/-- The texts of words, all of which have to be UTF-8. -/
def texts? (words : List (List UInt8)) : Option (List String) := words.mapM Text.Utf8.text?

namespace Request

def ofArguments (arguments : List (List UInt8)) : Except Refusal Request :=
  match Options.scan arguments {} with
  | .error refusal => .error refusal
  | .ok (options, words) =>
    match texts? words with
    | none => .error .malformedText
    | some texts =>
      .ok { file := options.file
            header := decide (.header ∈ options.flags)
            noPrompt := decide (.noPrompt ∈ options.flags)
            help := decide (.help ∈ options.flags)
            words := texts }

/-- What the arguments of a command ask for, or else the words for why they are
not accepted. -/
def read (arguments : List (List UInt8)) : Except String Request :=
  (ofArguments arguments).mapError Refusal.message

end Request

end TapeText.Command
