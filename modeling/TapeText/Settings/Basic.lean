import TapeText.Text.Blank

/-!
# TapeText.Settings.Basic — how a program is presented

Two settings decide what is shown around a program, never the program itself:
whether a header line precedes it, and whether a terminal is prompted for a
line. Each is taken from the first of these that says something: the flag, the
environment, the settings file, the default.
-/

namespace TapeText

/-- The settings of one invocation. -/
structure Settings where
  /-- Print a header line before the program. -/
  header : Bool := false
  /-- Prompt when the line is read from a terminal. -/
  prompt : Bool := true
deriving DecidableEq, Repr

/-- Settings of which some may be left open. -/
structure Preferences where
  header : Option Bool := none
  prompt : Option Bool := none
deriving DecidableEq, Repr

def onWords : List String := ["1", "true", "yes", "on"]

def offWords : List String := ["0", "false", "no", "off"]

/-- What a text means as a switch, if it is one of the words for on and off.
Blanks around it and the case of ASCII letters do not matter. -/
def switch? (text : List Char) : Option Bool :=
  let word := String.ofList ((Text.trim text).map Char.toLower)
  if word ∈ onWords then some true
  else if word ∈ offWords then some false
  else none

namespace Settings

def headerVariable : String := "TEXT2BF_HEADER"

def promptVariable : String := "TEXT2BF_PROMPT"

/-- The switch that an environment variable holds. -/
def fromEnvironment (environment : String → Option String) (name : String) : Option Bool :=
  (environment name).bind fun value => switch? value.toList

/-- The settings of an invocation. The flags can only turn the header on and
the prompt off. -/
def resolve (headerFlag noPromptFlag : Bool) (environment : String → Option String)
    (file : Preferences) : Settings where
  header :=
    headerFlag ||
      ((fromEnvironment environment headerVariable).or file.header).getD ({} : Settings).header
  prompt :=
    !noPromptFlag &&
      ((fromEnvironment environment promptVariable).or file.prompt).getD ({} : Settings).prompt

end Settings

end TapeText
