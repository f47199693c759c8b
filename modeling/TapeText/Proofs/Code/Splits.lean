import TapeText.Proofs.Code.Pieces

/-!
# TapeText.Proofs.Code.Splits — a program made part by part

A line may be cut anywhere between two units. The second part is made as if the
register held the last unit of the first one, and each part is passed on its own.
Put together, the two parts lack one thing: if the second part begins with a
short segment, the two moves where they meet cancel, and neither pass has seen
both.

* `printing` — the program for some units, from a register that need not be zero;
* `exists_dropPairs_segments_append` — the pass behind the last print of the
  first part;
* `printing_append` — the program for a line cut in two.
-/

namespace TapeText.Code

open Text (deltasFrom)

/-- The program that prints some units when the register holds `previous`. -/
def printing (previous : UInt16) (us : List UInt16) : List Char :=
  dropPairs (segments (deltasFrom previous us))

-- A line is printed from a register that is zero.
example (text : String) : program text = printing 0 (Text.units text) := rfl

variable {deltas front : List Int}

theorem isFixed_print : IsFixed '.' := by decide

/-- The last two instructions are a print and the move back to the counter. -/
theorem exists_segments_eq_concat (h : deltas ≠ []) :
    ∃ code, segments deltas = code ++ ['.', '<'] := by
  rcases List.eq_nil_or_concat deltas with rfl | ⟨before, last, rfl⟩
  · exact absurd rfl h
  · -- the last segment is its move, a print and the way back
    refine ⟨segments before ++ move false last, ?_⟩
    rw [List.concat_eq_append, segments_append, segments_cons, segments_nil, List.append_nil,
      ← piece_eq_segmentBy, List.append_assoc]
    rfl

/-- The pass goes on behind the last print of the first part as it would in front of
the second one. -/
theorem exists_dropPairs_segments_append (h : front ≠ []) :
    ∃ code, dropPairs (segments front) = code ++ ['<'] ∧
      ∀ back, dropPairs (segments (front ++ back)) = code ++ dropPairs ('<' :: segments back) := by
  rcases exists_segments_eq_concat h with ⟨code, hcode⟩
  refine ⟨dropPairs code ++ ['.'], ?_, ?_⟩
  · rw [hcode, dropPairs_append_cons isFixed_print, List.append_assoc]
    rfl
  · intro back
    rw [segments_append, hcode, List.append_assoc, List.append_assoc]
    exact dropPairs_append_cons isFixed_print code ('<' :: segments back)

/-- The pass keeps the move to the register in front of the first print. -/
theorem dropPairs_segments_of_joins (h : Stage.finished.joins deltas = true) :
    dropPairs (segments deltas) = '>' :: dropPairs (segments deltas).tail := by
  cases deltas with
  | nil => exact absurd h Bool.false_ne_true
  | cons delta deltas =>
      have hwhole : (pieces .finished false (delta :: deltas)).flatten =
          dropPairs (segments (delta :: deltas)) :=
        flatten_pieces_finished _ (fun h => absurd h Bool.false_ne_true)
      have hopened : (pieces .finished true (delta :: deltas)).flatten =
          dropPairs (segments (delta :: deltas)).tail :=
        flatten_pieces_finished _ (fun _ => h)
      -- the two lists of pieces differ in the first move of the first piece
      rw [← hwhole, ← hopened]
      unfold pieces
      rw [List.flatten_cons, List.flatten_cons, piece_opened h]
      rfl

/-- A list of units that is not empty leaves its last unit in the register. -/
theorem deltasFrom_append_getLast (previous : UInt16) {xs : List UInt16} (hxs : xs ≠ [])
    (ys : List UInt16) :
    deltasFrom previous (xs ++ ys) = deltasFrom previous xs ++ deltasFrom (xs.getLast hxs) ys := by
  have hlast : xs.getLastD previous = xs.getLast hxs := by
    rw [List.getLastD_eq_getLast?, List.getLast?_eq_some_getLast hxs]
    rfl
  rw [Text.deltasFrom_append, hlast]

/-- The program for some units is put together from those for two parts of them, the
second one made from the last unit of the first. Where the way between the parts is
longer than twelve, the programs follow each other. Where it is not, the first one ends
with a move to the counter, the second one begins with a move to the register, and these
two are missing between them. -/
theorem printing_append (previous : UInt16) (xs ys : List UInt16) (hxs : xs ≠ [])
    (hys : ys ≠ []) :
    (12 < (((ys.head hys).toNat : Int) - (xs.getLast hxs).toNat).natAbs →
      printing previous (xs ++ ys) = printing previous xs ++ printing (xs.getLast hxs) ys) ∧
    ((((ys.head hys).toNat : Int) - (xs.getLast hxs).toNat).natAbs ≤ 12 →
      ∃ front back, printing previous xs = front ++ ['<'] ∧
        printing (xs.getLast hxs) ys = '>' :: back ∧
        printing previous (xs ++ ys) = front ++ back) := by
  rcases List.exists_cons_of_ne_nil hys with ⟨y, more, rfl⟩
  have hne : deltasFrom previous xs ≠ [] := by
    intro h
    have hlength := congrArg List.length h
    rw [Text.length_deltasFrom] at hlength
    exact hxs (List.length_eq_zero_iff.1 hlength)
  have hjoins : Stage.finished.joins (deltasFrom (xs.getLast hxs) (y :: more)) =
      decide (((y.toNat : Int) - (xs.getLast hxs).toNat).natAbs ≤ 12) := rfl
  rcases exists_dropPairs_segments_append hne with ⟨code, hfirst, hwhole⟩
  -- both passes are the same up to the last print, and then it depends on the seam
  unfold printing
  rw [deltasFrom_append_getLast previous hxs, hwhole, dropPairs_seam, hjoins, hfirst,
    List.head_cons]
  constructor
  · intro hlong
    rw [if_neg (by simpa using hlong), List.append_assoc]
    rfl
  · intro hshort
    have hopens := dropPairs_segments_of_joins (hjoins.trans (decide_eq_true hshort))
    rw [if_pos (decide_eq_true hshort)]
    exact ⟨code, _, rfl, hopens, rfl⟩

/-- Behind half a surrogate pair that stands alone: a way of twelve to the first unit of
the second part, and one of thirteen. -/
theorem printing_append_at_the_limit :
    ([65, 0xD800] ≠ ([] : List UInt16) ∧ [0xD80C, 7] ≠ ([] : List UInt16) ∧
      [0xD80D, 7] ≠ ([] : List UInt16)) ∧
    (∃ front back, printing 0 [65, 0xD800] = front ++ ['<'] ∧
      printing 0xD800 [0xD80C, 7] = '>' :: back ∧
      printing 0 [65, 0xD800, 0xD80C, 7] = front ++ back) ∧
    printing 0 [65, 0xD800, 0xD80D, 7] =
      printing 0 [65, 0xD800] ++ printing 0xD800 [0xD80D, 7] := by
  have hfirst : [65, 0xD800] ≠ ([] : List UInt16) := by decide
  have hnear : [0xD80C, 7] ≠ ([] : List UInt16) := by decide
  have hfar : [0xD80D, 7] ≠ ([] : List UInt16) := by decide
  have htwelve : (((0xD80C : UInt16).toNat : Int) - (0xD800 : UInt16).toNat).natAbs ≤ 12 := by
    decide
  have hthirteen : 12 < (((0xD80D : UInt16).toNat : Int) - (0xD800 : UInt16).toNat).natAbs := by
    decide
  refine ⟨⟨hfirst, hnear, hfar⟩, ?_, ?_⟩
  · exact (printing_append 0 [65, 0xD800] [0xD80C, 7] hfirst hnear).2 htwelve
  · exact (printing_append 0 [65, 0xD800] [0xD80D, 7] hfirst hfar).1 hthirteen

end TapeText.Code
