/-!
# TapeText.Code.Shifts — cell moves that cancel

A move to the right directly followed by one to the left, or the other way
round, does nothing. One pass from left to right drops such pairs. Pairs do
not overlap, and a pair that only comes together because another one was
dropped between its halves is kept.
-/

namespace TapeText.Code

/-- The two instructions are opposite cell moves. -/
def opposite : Char → Char → Bool
  | '<', '>' => true
  | '>', '<' => true
  | _, _ => false

/-- What the pass makes of the rest of a program, behind what it has kept so
far (in reverse). -/
def dropPairsOnto (kept : List Char) : List Char → List Char
  | a :: b :: rest =>
    if opposite a b then dropPairsOnto kept rest else dropPairsOnto (a :: kept) (b :: rest)
  | [a] => (a :: kept).reverse
  | [] => kept.reverse

/-- One pass that drops adjacent opposite moves. -/
def dropPairs (code : List Char) : List Char := dropPairsOnto [] code

/-! ## The pass without its accumulator -/

/-- What has been kept is not looked at again. -/
theorem dropPairsOnto_append (kept more code : List Char) :
    dropPairsOnto (kept ++ more) code = more.reverse ++ dropPairsOnto kept code := by
  -- one case for each branch of the pass
  fun_induction dropPairsOnto kept code with
  | case1 kept a b rest h ih => rw [dropPairsOnto, if_pos h, ih]
  | case2 kept a b rest h ih => rw [dropPairsOnto, if_neg h, ← List.cons_append, ih]
  | case3 kept a => simp [dropPairsOnto]
  | case4 kept => simp [dropPairsOnto]

/-- What was kept stays in front. -/
theorem dropPairsOnto_eq (kept code : List Char) :
    dropPairsOnto kept code = kept.reverse ++ dropPairs code :=
  dropPairsOnto_append [] kept code

@[simp] theorem dropPairs_nil : dropPairs [] = [] := rfl

@[simp] theorem dropPairs_singleton (a : Char) : dropPairs [a] = [a] := rfl

/-- A pair is dropped and the pass goes on behind it. -/
theorem dropPairs_of_opposite {a b : Char} (h : opposite a b = true) (rest : List Char) :
    dropPairs (a :: b :: rest) = dropPairs rest := by
  rw [dropPairs, dropPairsOnto, if_pos h, ← dropPairs]

/-- Anything else is kept. -/
theorem dropPairs_of_not_opposite {a b : Char} (h : opposite a b = false) (rest : List Char) :
    dropPairs (a :: b :: rest) = a :: dropPairs (b :: rest) := by
  rw [dropPairs, dropPairsOnto, if_neg (by simp [h]), dropPairsOnto_eq]
  rfl

end TapeText.Code
