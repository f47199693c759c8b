import TapeText.Code.Program
import TapeText.Log
import TapeText.Settings.Basic

/-!
# TapeText.Command.Records — what the command logs about itself

Four parts of the command leave records: loading the settings file, resolving
the settings, writing each segment, and writing the whole program.
-/

namespace TapeText.Command

open Log (Record)

/-! ## Topics -/

def settingsFileTopic : String := "text2bf::config"

def commandTopic : String := "text2bf::commands::generate"

def programTopic : String := "text2bf::writer"

def segmentTopic : String := "text2bf::fragment"

/-! ## Records -/

def truthWord (b : Bool) : String := if b then "true" else "false"

/-- The settings file at `path` was read. -/
def loadedRecord (path : String) : Record :=
  ⟨.debug, settingsFileTopic, s!"loaded settings from {path}"⟩

def settingsRecord (settings : Settings) : Record :=
  ⟨.debug, commandTopic,
    "settings: Settings \x7b header: " ++ truthWord settings.header ++
      ", prompt: " ++ truthWord settings.prompt ++ " \x7d"⟩

def directionWord : Code.Direction → String
  | .up => "Increment"
  | .down => "Decrement"

/-- How the segment for a delta is written. -/
def segmentRecord (delta : Int) : Record :=
  let form :=
    if delta.natAbs ≤ Code.directLimit then
      "direct"
    else
      let plan := Loop.Plan.best delta.natAbs
      s!"loop FactorTriple \x7b outer: {plan.rounds}, inner: {plan.stride}, " ++
        s!"adjustment: {plan.correction} \x7d"
  ⟨.trace, segmentTopic,
    s!"magnitude {delta.natAbs} {directionWord (.ofDelta delta)}: {form}"⟩

/-- The records of writing the program for a line. -/
def programRecords (line : String) : List Record :=
  let units := Text.units line
  let written := (Code.program line).length
  let raw := (Code.rawProgram line).length
  ⟨.debug, programTopic, s!"input encodes to {units.length} codes"⟩ ::
    (Text.deltas units).map segmentRecord ++
    [⟨.debug, programTopic,
      s!"generated {written} instructions ({raw} before removing redundant shifts)"⟩]

end TapeText.Command
