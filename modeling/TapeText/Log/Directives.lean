import TapeText.Log
import TapeText.Text.Blank

/-!
# TapeText.Log.Directives — the text of a filter

The text of a filter is a list of directives, each of which sets how much is
shown for the topics that begin with a name; a directive without a name stands
for all topics. Of the directives that apply to a topic the one with the longest
name decides.
-/

namespace TapeText.Log

/-- What a filter says about one family of topics. -/
structure Directive where
  /-- The beginning of the topics it is about; all topics if there is none. -/
  name : Option String
  /-- The rank of the most detailed level that is shown; `0` shows nothing. -/
  shown : Nat
deriving DecidableEq, Repr

namespace Directive

/-- The rank that a word stands for, in upper or lower case. -/
def rank? (word : List Char) : Option Nat :=
  match String.ofList (word.map Char.toLower) with
  | "off" => some 0
  | "error" => some Level.error.rank
  | "warn" => some Level.warn.rank
  | "info" => some Level.info.rank
  | "debug" => some Level.debug.rank
  | "trace" => some Level.trace.rank
  | _ => none

/-- Read one item of a filter: a level, a name, or a name with a level. A name
without a level shows everything. -/
def ofItem? (item : List Char) : Option Directive :=
  match item.splitOn '=' with
  | [word] =>
    match rank? word with
    | some shown => some ⟨none, shown⟩
    | none => some ⟨some (String.ofList word), Level.trace.rank⟩
  | [name, level] =>
    if Text.trim level = [] then some ⟨some (String.ofList name), Level.trace.rank⟩
    else (rank? (Text.trim level)).map fun shown => ⟨some (String.ofList name), shown⟩
  | _ => none

def applies (d : Directive) (topic : String) : Bool :=
  match d.name with
  | none => true
  | some name => name.toList.isPrefixOf topic.toList

/-- A directive with a longer name is more specific; one without a name is the
least specific. -/
def specificity (d : Directive) : Nat :=
  match d.name with
  | none => 0
  | some name => name.utf8ByteSize + 1

end Directive

/-- Directives, no two of them with the same name. -/
abbrev Directives := List Directive

namespace Directives

/-- Add a directive in place of one with the same name. -/
def insert (directives : Directives) (d : Directive) : Directives :=
  directives.filter (·.name ≠ d.name) ++ [d]

/-- The directive that applies where nothing else is said. -/
def standard : Directives := [⟨none, Level.warn.rank⟩]

/-- Read items between commas, of which the empty and the malformed ones are
passed over. -/
def ofText (text : String) : Directives :=
  let items := (text.toList.splitOn ',').map Text.trim
  ((items.filter (· ≠ [])).filterMap Directive.ofItem?).foldl insert standard

/-- The rank up to which records of a topic are shown. -/
def shown (directives : Directives) (topic : String) : Nat :=
  let deciding := (directives.filter (·.applies topic)).foldl
    (fun best d =>
      match best with
      | none => some d
      | some b => if b.specificity < d.specificity then some d else some b)
    (none : Option Directive)
  match deciding with
  | none => 0
  | some d => d.shown

end Directives

/-- The filter that a text stands for. -/
def Filter.ofText (text : String) : Filter := fun r =>
  r.level.rank ≤ (Directives.ofText text).shown r.topic

end TapeText.Log
