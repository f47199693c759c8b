import TapeText.Terminal.Plain

/-!
# TapeText.Command.Refusal — why arguments are not accepted

A refusal quotes the argument that it is about in its plain form.
-/

namespace TapeText.Command

/-- The options that take no value. -/
inductive Flag where
  | header
  | noPrompt
  | help
deriving DecidableEq, Repr

namespace Flag

def name : Flag → String
  | header => "--header"
  | noPrompt => "--no-prompt"
  | help => "--help"

def ofName? (name : String) : Option Flag :=
  [header, noPrompt, help].find? fun flag => flag.name == name

end Flag

/-- Why arguments are not accepted. -/
inductive Refusal where
  /-- There is no such option. -/
  | unexpectedArgument (shown : String)
  /-- The file option has no path, or an empty one. -/
  | missingPath
  /-- The file option is given twice. -/
  | repeatedPath
  | repeatedFlag (flag : Flag)
  /-- A flag is given a value. -/
  | unexpectedValue (flag : Flag) (shown : String)
  /-- A word of the text is not UTF-8. -/
  | malformedText
deriving DecidableEq, Repr

def Refusal.message : Refusal → String
  | unexpectedArgument shown => s!"unexpected argument '{Plain.ofText shown}' found"
  | missingPath => "a value is required for '--file <PATH>' but none was supplied"
  | repeatedPath => "the argument '--file <PATH>' cannot be used multiple times"
  | repeatedFlag flag => s!"the argument '{flag.name}' cannot be used multiple times"
  | unexpectedValue flag shown =>
    s!"unexpected value '{Plain.ofText shown}' for '{flag.name}' found; no more were expected"
  | malformedText => "invalid UTF-8 was detected in one or more arguments"

end TapeText.Command
