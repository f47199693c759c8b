import TapeText.Settings.Basic
import TapeText.Text.Lines

/-!
# TapeText.Settings.File — the settings file

A settings file is made of headings in brackets, assignments, and comments.
Only assignments under an `[output]` heading count. If a key is assigned more
than once the last assignment decides; what it assigns need not be a switch,
and then the setting is left open.
-/

namespace TapeText

/-- What a line of a settings file says. -/
inductive SettingsLine where
  /-- An empty line, a comment, or anything else that says nothing. -/
  | silent
  /-- The heading of a section. -/
  | heading (name : List Char)
  | assignment (key value : List Char)
deriving DecidableEq, Repr

namespace SettingsLine

/-- A value without the double quotes around it. -/
def unquote (value : List Char) : List Char :=
  match value with
  | '"' :: rest => if rest.getLast? = some '"' then rest.dropLast else value
  | _ => value

/-- Read one line, without its line ending. -/
def ofLine (line : List Char) : SettingsLine :=
  let text := Text.trim line
  if text.head? = none ∨ text.head? = some '#' then
    .silent
  else if text.head? = some '[' ∧ text.getLast? = some ']' then
    .heading (Text.trim (text.drop 1).dropLast)
  else if '=' ∈ text then
    let key := text.takeWhile (· != '=')
    let value := (text.dropWhile (· != '=')).drop 1
    .assignment (Text.trim key) (unquote (Text.trim value))
  else
    .silent

/-- The assignments that count, in order, as pairs of key and value. `counts`
says whether those before the first heading do. -/
def assignments (counts : Bool) : List SettingsLine → List (List Char × List Char)
  | [] => []
  | silent :: rest => assignments counts rest
  | heading name :: rest => assignments (name == "output".toList) rest
  | assignment key value :: rest =>
    if counts then (key, value) :: assignments counts rest else assignments counts rest

end SettingsLine

namespace Preferences

/-- The values assigned to `key`, in order. -/
def valuesOf (key : String) (content : List Char) : List (List Char) :=
  let written := SettingsLine.assignments false ((Text.lines content).map SettingsLine.ofLine)
  (written.filter fun (name, _) => name == key.toList).map Prod.snd

/-- What the content of a settings file says about a switch. -/
def lookup (key : String) (content : List Char) : Option Bool :=
  (valuesOf key content).getLast?.bind switch?

def ofContent (content : String) : Preferences where
  header := lookup "header" content.toList
  prompt := lookup "prompt" content.toList

end Preferences

end TapeText
