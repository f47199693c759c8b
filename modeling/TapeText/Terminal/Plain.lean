/-!
# TapeText.Terminal.Plain — text without control sequences

Text that comes from outside could drive the terminal it is shown on. Its plain
form leaves out escape sequences and control characters; blank control
characters such as tabs and line ends stay.

* `Place.next` — how a control sequence goes on and where it ends;
* `strip` — the plain form of a list of characters.
-/

namespace TapeText.Plain

/-- The character is shown where no sequence has begun. -/
def isShown (c : Char) : Bool :=
  (' ' ≤ c && c ≠ '\x7f') || c = '\t' || c = '\n' || c = '\x0c' || c = '\r'

/-- The control characters after which any sequence is over. -/
def isCancel (c : Char) : Bool := c = '\x18' || c = '\x1a'

/-- The byte that ends a string, wherever it stands in the encoding of a
character. -/
def terminator : UInt8 := 0x9C

/-- A string ends with this character. -/
def endsString (c : Char) : Bool := (String.utf8EncodeChar c).contains terminator

/-- Where in a control sequence a text stands. -/
inductive Place where
  /-- In no sequence. -/
  | text
  /-- Behind an escape character. -/
  | escape
  /-- Behind an escape character and something between it and its end. -/
  | intermediate
  /-- In a sequence of parameters that a letter ends. -/
  | parameters
  /-- At the beginning of a device control string. -/
  | deviceEntry
  /-- In the parameters of a device control string. -/
  | deviceParameters
  /-- Between the parameters of a device control string and its body. -/
  | deviceIntermediate
  /-- In a string that the terminator ends. -/
  | body
  /-- In a system string, which a bell ends. -/
  | systemString
deriving DecidableEq, Repr

namespace Place

/-- The place behind `c`, a character that is not shown. Characters that have
no meaning at a place leave it as it is. -/
def next (place : Place) (c : Char) : Place :=
  if c = '\x1b' then .escape
  else if isCancel c then .text
  else
    match place with
    | text => .text
    | body => if endsString c then .text else .body
    | systemString => if c = '\x07' then .text else .systemString
    | _ =>
      if c < ' ' || '\x7f' ≤ c then place
      else
        match place with
        | escape =>
          if c < '0' then .intermediate
          else if c = '[' then .parameters
          else if c = ']' then .systemString
          else if c = 'P' then .deviceEntry
          else if c = 'X' || c = '^' || c = '_' then .body
          else .text
        | intermediate => if c < '0' then .intermediate else .text
        | parameters => if c < '@' then .parameters else .text
        | deviceEntry =>
          if c < '0' then .deviceIntermediate
          else if c < '@' then .deviceParameters
          else .body
        | deviceParameters =>
          if c < '0' then .deviceIntermediate
          else if c < '<' then .deviceParameters
          else .body
        | _ => if c < '0' then .deviceIntermediate else .body

/-- The character is shown at a place. Inside a sequence only a blank control
character is, and none inside a string. -/
def shows (place : Place) (c : Char) : Bool :=
  match place with
  | text => isShown c
  | escape | intermediate | parameters => isShown c && c < ' '
  | _ => false

end Place

/-- The plain form of a text from a place on. Once a character is shown, all
are until one is not; then the sequence that was under way goes on, unless a
character beyond ASCII has ended it. -/
def strip (place : Place) (showing : Bool) : List Char → List Char
  | [] => []
  | c :: rest =>
    if (showing && isShown c) || place.shows c then
      c :: strip (if c < '\x80' then place else .text) true rest
    else
      strip (place.next c) false rest

/-- The plain form of a text. -/
def ofText (text : String) : String := String.ofList (strip .text false text.toList)

end TapeText.Plain
