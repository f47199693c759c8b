/-!
# TapeText.Text.Lines — cutting a sequence into lines

Lines are cut behind each line feed. Everything is said for any kind of
element, because the same rule applies to the characters of a text and to the
bytes of a stream.

* `firstPiece`, `afterFirst` — the part through the first line feed, and the
  rest;
* `pieces` — all parts, so that `pieces` of a sequence flattens to it;
* `withoutEnding` — a part without its line feed and the carriage return
  before it.
-/

namespace TapeText.Text

variable {α : Type} [BEq α]

/-- The part of `xs` through its first `feed`, or all of it. -/
def firstPiece (feed : α) (xs : List α) : List α :=
  xs.takeWhile (· != feed) ++ (xs.dropWhile (· != feed)).take 1

/-- What follows the first `feed`. -/
def afterFirst (feed : α) (xs : List α) : List α := (xs.dropWhile (· != feed)).drop 1

/-- The first part and the rest are all there is. -/
theorem firstPiece_append_afterFirst (feed : α) (xs : List α) :
    firstPiece feed xs ++ afterFirst feed xs = xs := by
  rw [firstPiece, afterFirst, List.append_assoc, List.take_append_drop,
    List.takeWhile_append_dropWhile]

@[simp] theorem firstPiece_nil (feed : α) : firstPiece feed [] = [] := rfl

@[simp] theorem afterFirst_nil (feed : α) : afterFirst feed [] = [] := rfl

/-- A cut always takes something off. -/
theorem length_afterFirst_lt (feed x : α) (xs : List α) :
    (afterFirst feed (x :: xs)).length < (x :: xs).length := by
  have h : ((x :: xs).dropWhile (· != feed)).length ≤ (x :: xs).length :=
    (List.dropWhile_sublist _).length_le
  simp only [afterFirst, List.length_drop, List.length_cons] at h ⊢
  omega

/-- The parts of a sequence, each through one `feed`; only the last one may
lack it. -/
def pieces (feed : α) : List α → List (List α)
  | [] => []
  | x :: xs => firstPiece feed (x :: xs) :: pieces feed (afterFirst feed (x :: xs))
termination_by xs => xs.length
decreasing_by exact length_afterFirst_lt feed x xs

@[simp] theorem pieces_nil (feed : α) : pieces feed [] = [] := by
  rw [pieces]

theorem pieces_cons (feed x : α) (xs : List α) :
    pieces feed (x :: xs) =
      firstPiece feed (x :: xs) :: pieces feed (afterFirst feed (x :: xs)) := by
  rw [pieces]

/-- Cutting loses nothing. -/
theorem flatten_pieces (feed : α) (xs : List α) : (pieces feed xs).flatten = xs := by
  fun_induction pieces feed xs with
  | case1 => rfl
  | case2 x xs ih => rw [List.flatten_cons, ih, firstPiece_append_afterFirst]

/-- A part without the `feed` at its end, and then without one `ret` before
it. A `ret` at the very end of a part that has no `feed` is kept. -/
def withoutEnding (feed ret : α) (piece : List α) : List α :=
  if piece.getLast? == some feed then
    let body := piece.dropLast
    if body.getLast? == some ret then body.dropLast else body
  else
    piece

/-! ## Lines of text -/

/-- The first line of a text, without its ending. -/
def firstLine (text : List Char) : List Char :=
  withoutEnding '\n' '\r' (firstPiece '\n' text)

/-- The lines of a text, without their endings. -/
def lines (text : List Char) : List (List Char) :=
  (pieces '\n' text).map (withoutEnding '\n' '\r')

end TapeText.Text
