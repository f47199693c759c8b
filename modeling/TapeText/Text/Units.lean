/-!
# TapeText.Text.Units — text as 16-bit units

A printed line is a list of 16-bit units. A character below U+10000 is one
unit; every other character is a surrogate pair, high half first. The line
ends with one extra unit, a line feed.

* `units` — the units of a text, terminator included;
* `deltasFrom` — each unit relative to the unit before it.
-/

namespace TapeText.Text

/-- The unit that ends every printed line: a line feed. -/
def terminator : UInt16 := 10

/-- The units of one character: itself, or a surrogate pair from U+10000 on. -/
def unitsOfChar (c : Char) : List UInt16 :=
  if c.toNat < 0x10000 then
    [c.toNat.toUInt16]
  else
    let above := c.toNat - 0x10000
    [(0xD800 + above / 0x400).toUInt16, (0xDC00 + above % 0x400).toUInt16]

/-- The units of a list of characters, without a terminator. -/
def unitsOfChars (cs : List Char) : List UInt16 := cs.flatMap unitsOfChar

/-- The units that a program for `text` prints: those of the text, then the
terminator. -/
def units (text : String) : List UInt16 := unitsOfChars text.toList ++ [terminator]

@[simp] theorem unitsOfChars_nil : unitsOfChars [] = [] := rfl

@[simp] theorem unitsOfChars_cons (c : Char) (cs : List Char) :
    unitsOfChars (c :: cs) = unitsOfChar c ++ unitsOfChars cs := rfl

theorem units_ne_nil (text : String) : units text ≠ [] := by
  simp [units]

/-! ## Deltas -/

/-- Each unit relative to the one before it, the first relative to
`previous`. -/
def deltasFrom (previous : UInt16) (us : List UInt16) : List Int :=
  List.zipWith (fun current before => (current.toNat : Int) - before.toNat) us (previous :: us)

/-- Each unit relative to the one before it, the first relative to zero. -/
def deltas (us : List UInt16) : List Int := deltasFrom 0 us

@[simp] theorem deltasFrom_nil (previous : UInt16) : deltasFrom previous [] = [] := rfl

@[simp] theorem deltasFrom_cons (previous u : UInt16) (us : List UInt16) :
    deltasFrom previous (u :: us) = ((u.toNat : Int) - previous.toNat) :: deltasFrom u us := rfl

/-- Behind some units the deltas go on from the last of them. -/
theorem deltasFrom_append (previous : UInt16) (front back : List UInt16) :
    deltasFrom previous (front ++ back) =
      deltasFrom previous front ++ deltasFrom (front.getLastD previous) back := by
  induction front generalizing previous with
  | nil => rfl
  | cons u front ih =>
      rw [List.cons_append, deltasFrom_cons, deltasFrom_cons, ih u, List.getLastD_cons]
      rfl

@[simp] theorem length_deltasFrom (previous : UInt16) (us : List UInt16) :
    (deltasFrom previous us).length = us.length := by
  simp [deltasFrom]

@[simp] theorem length_deltas (us : List UInt16) : (deltas us).length = us.length :=
  length_deltasFrom 0 us

end TapeText.Text
