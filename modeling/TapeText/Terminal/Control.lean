/-!
# TapeText.Terminal.Control — streams that take control sequences

Control sequences are only written to a stream if something there is going to
interpret them. The environment can forbid them or, failing that, force them;
otherwise the stream has to be a terminal that is known to be able.
-/

namespace TapeText.Control

/-- The environment variables that decide. -/
def environmentNames : List String := ["NO_COLOR", "CLICOLOR_FORCE", "CLICOLOR", "TERM", "CI"]

/-- The variable is set to something other than the empty value. -/
def isFilled (environment : String → Option (List UInt8)) (name : String) : Bool :=
  match environment name with
  | some value => !value.isEmpty
  | none => false

/-- The variable is set to something other than `value`. -/
def isOtherThan (environment : String → Option (List UInt8)) (name value : String) : Bool :=
  match environment name with
  | some bytes => bytes != value.toByteArray.data.toList
  | none => false

/-- The stream is a terminal that is known to be able, or is said to be. -/
def isAble (environment : String → Option (List UInt8)) (terminal : Bool) : Bool :=
  terminal && ((environment "CLICOLOR").isNone || isOtherThan environment "CLICOLOR" "0") &&
    (isOtherThan environment "TERM" "dumb" || (environment "CLICOLOR").isSome ||
      (environment "CI").isSome)

/-- Control sequences are written to a stream. To forbid them is stronger than
to force them. -/
def isTaken (environment : String → Option (List UInt8)) (terminal : Bool) : Bool :=
  !isFilled environment "NO_COLOR" &&
    (isFilled environment "CLICOLOR_FORCE" || isAble environment terminal)

end TapeText.Control
