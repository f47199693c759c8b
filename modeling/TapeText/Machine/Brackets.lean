/-!
# TapeText.Machine.Brackets — partners of brackets

Before a program runs, each of its brackets is given its partner. If one has
none, the program is rejected: at its first closing bracket that closes
nothing, or else at its last opening bracket that is never closed.
-/

namespace TapeText.Brackets

/-- The partners of the brackets of a program that begins with the scanned
part, whose partners are known as far as they have been met. `opens` holds the
positions of the brackets that are still open, the innermost first. -/
def scan (partners : Array (Option Nat)) (opens : List Nat) :
    List Char → Except Nat (Array (Option Nat))
  | [] =>
    match opens with
    | [] => .ok partners
    | i :: _ => .error i
  | c :: rest =>
    let here := partners.size
    if c = '[' then
      scan (partners.push none) (here :: opens) rest
    else if c = ']' then
      match opens with
      | [] => .error here
      | i :: outer =>
        scan ((partners.setIfInBounds i (some here)).push (some i)) outer rest
    else
      scan (partners.push none) opens rest

/-- For each position of the program the position of its partner, or the
position of the bracket that has none. -/
def partners (code : List Char) : Except Nat (Array (Option Nat)) := scan #[] [] code

end TapeText.Brackets
