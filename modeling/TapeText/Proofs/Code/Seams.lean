import Mathlib.Algebra.Ring.Nat
import TapeText.Proofs.Code.Pieces
import TapeText.Proofs.Code.Repetition

/-!
# TapeText.Proofs.Code.Seams — one pass is enough

Where two segments of a program meet, the first one has just moved back to the
counter. If the second one is short it moves to the register at once, and the
pass drops both moves. Nothing else is dropped, and no two moves come together
that were apart before: between two seams there is always a print. So the pass
has nothing left to do when it is made a second time.

* `DropsSeam`, `seams` — which pairs the pass drops, and how many;
* `add_seams` — what a sum over the segments loses at the seams;
* `pairFree_program` — the program has no pair left in it;
* `program_of_seams` — the program, segment by segment.
-/

namespace TapeText.Code

/-- The pass drops the pair in front of this segment: it is short, and it is
not the first one. -/
def DropsSeam (deltas : List Int) (j : Nat) : Prop :=
  0 < j ∧ ∃ delta, deltas[j]? = some delta ∧ isShort delta = true

/-- How many pairs the pass drops: one in front of each short segment behind
the first one. -/
def seams (deltas : List Int) : Nat := deltas.tail.countP isShort

variable {stage : Stage} {opened : Bool} {delta : Int} {deltas : List Int} {j : Nat}

/-! ## The two ends of a piece -/

/-- A segment is its piece and the moves that were dropped at its ends. -/
theorem segmentBy_eq_piece (hopened : opened = true → isShort delta = true) (leaves : Bool) :
    segmentBy delta = (if opened then ['>'] else []) ++ piece opened leaves delta ++
      (if leaves then ['<'] else []) := by
  have hfront : piece false false delta =
      (if opened then ['>'] else []) ++ piece opened false delta := by
    cases opened with
    | false => rfl
    | true => exact piece_opened (hopened rfl) false
  have hback : piece opened false delta =
      piece opened leaves delta ++ (if leaves then ['<'] else []) := by
    unfold piece
    cases leaves <;> simp
  rw [← piece_eq_segmentBy, hfront, hback, List.append_assoc]

/-- The pair in front of a segment is dropped exactly if that segment is short. -/
theorem joins_drop (deltas : List Int) (j : Nat) :
    Stage.finished.joins (deltas.drop j) = true ↔
      ∃ delta, deltas[j]? = some delta ∧ isShort delta = true := by
  rw [← List.head?_drop]
  cases deltas.drop j with
  | nil =>
      constructor
      · intro h
        exact absurd h Bool.false_ne_true
      · rintro ⟨delta, h, -⟩
        simp at h
  | cons delta rest =>
      constructor
      · intro h
        exact ⟨delta, rfl, h⟩
      · rintro ⟨delta', h, hshort⟩
        obtain rfl := Option.some.inj h
        exact hshort

/-- The piece of a segment knows whether the pairs at its two ends have been
dropped. -/
theorem getElem?_pieces (h : deltas[j]? = some delta) :
    (pieces stage opened deltas)[j]? =
      some (piece (if j = 0 then opened else stage.joins (deltas.drop j))
        (stage.joins (deltas.drop (j + 1))) delta) := by
  induction deltas generalizing opened j with
  | nil => simp at h
  | cons first deltas ih =>
      cases j with
      | zero =>
          obtain rfl := Option.some.inj h
          rfl
      | succ j =>
          have hpieces : (pieces stage opened (first :: deltas))[j + 1]? =
              (pieces stage (stage.joins deltas) deltas)[j]? := rfl
          -- behind the first segment, the second one finds the pointer where the seam left it
          have hopened : (if j = 0 then stage.joins deltas else stage.joins (deltas.drop j)) =
              stage.joins (deltas.drop j) := by
            split
            · next hzero => rw [hzero, List.drop_zero]
            · rfl
          have hpiece := @ih (stage.joins deltas) j h
          rw [hopened] at hpiece
          rw [hpieces, hpiece, if_neg (Nat.succ_ne_zero j)]
          rfl

/-- The pieces of a program are its segments without the moves that were
dropped. -/
theorem exists_part (h : deltas[j]? = some delta) :
    ∃ part front back, (pieces .finished false deltas)[j]? = some part ∧
      segmentBy delta = front ++ part ++ back ∧
      (DropsSeam deltas j ∧ front = ['>'] ∨ ¬ DropsSeam deltas j ∧ front = []) ∧
      (DropsSeam deltas (j + 1) ∧ back = ['<'] ∨ ¬ DropsSeam deltas (j + 1) ∧ back = []) := by
  have hfront : (if j = 0 then false else Stage.finished.joins (deltas.drop j)) = true ↔
      DropsSeam deltas j := by
    unfold DropsSeam
    rw [← joins_drop]
    by_cases hj : j = 0
    · simp [hj]
    · simp [hj, Nat.pos_of_ne_zero hj]
  have hback : Stage.finished.joins (deltas.drop (j + 1)) = true ↔ DropsSeam deltas (j + 1) := by
    unfold DropsSeam
    rw [← joins_drop]
    simp
  -- only a short segment finds the pointer on the register
  have hshort : (if j = 0 then false else Stage.finished.joins (deltas.drop j)) = true →
      isShort delta = true := by
    intro hopened
    rcases (hfront.1 hopened).2 with ⟨delta', h', hshort⟩
    rw [h] at h'
    obtain rfl := Option.some.inj h'
    exact hshort
  refine ⟨_, _, _, getElem?_pieces h, segmentBy_eq_piece hshort _, ?_, ?_⟩
  · by_cases hdrops : DropsSeam deltas j
    · rw [if_pos (hfront.2 hdrops)]
      exact .inl ⟨hdrops, rfl⟩
    · rw [if_neg (mt hfront.1 hdrops)]
      exact .inr ⟨hdrops, rfl⟩
  · by_cases hdrops : DropsSeam deltas (j + 1)
    · rw [if_pos (hback.2 hdrops)]
      exact .inl ⟨hdrops, rfl⟩
    · rw [if_neg (mt hback.1 hdrops)]
      exact .inr ⟨hdrops, rfl⟩

/-! ## Counting seams -/

/-- Every short segment but the first one has a seam in front of it, and the first one
has it if there is a segment before. -/
theorem toNat_joins_add_seams (deltas : List Int) :
    (Stage.finished.joins deltas).toNat + seams deltas = deltas.countP isShort := by
  cases deltas with
  | nil => rfl
  | cons delta deltas =>
      have hjoins : Stage.finished.joins (delta :: deltas) = isShort delta := rfl
      have hseams : seams (delta :: deltas) = deltas.countP isShort := rfl
      rw [hjoins, hseams, List.countP_cons, Nat.add_comm]
      cases isShort delta <;> rfl

/-- What a sum over the pieces of a program lacks against the sum over its
segments, if a piece lacks one for each move that was dropped from it: two for
each seam, and one for a move in front. -/
theorem add_seams {sum : Bool → List Int → Nat} {cost : Bool → Bool → Int → Nat}
    (hnil : ∀ opened, sum opened [] = 0)
    (hcons : ∀ opened delta deltas, sum opened (delta :: deltas) =
      cost opened (Stage.finished.joins deltas) delta +
        sum (Stage.finished.joins deltas) deltas)
    (hcost : ∀ opened leaves delta, (opened = true → isShort delta = true) →
      cost opened leaves delta + opened.toNat + leaves.toNat = cost false false delta)
    (hopened : opened = true → Stage.finished.joins deltas = true) :
    sum opened deltas + opened.toNat + 2 * seams deltas =
      (deltas.map (cost false false)).sum := by
  induction deltas generalizing opened with
  | nil =>
      -- behind the last segment there is nothing that could have been joined
      have hclosed : opened = false := by
        cases opened with
        | false => rfl
        | true => exact absurd (hopened rfl) Bool.false_ne_true
      rw [hnil, hclosed]
      rfl
  | cons delta deltas ih =>
      have hrest := @ih (Stage.finished.joins deltas) id
      have hpiece := hcost opened (Stage.finished.joins deltas) delta hopened
      have hseams : seams (delta :: deltas) = deltas.countP isShort := rfl
      -- the seam behind this segment counts once here and once in the rest
      have hcount := toNat_joins_add_seams deltas
      rw [hcons, hseams, List.map_cons, List.sum_cons]
      omega

/-- A piece is one instruction shorter for each of its moves that was dropped. -/
theorem length_piece_add (leaves : Bool) (hopened : opened = true → isShort delta = true) :
    (piece opened leaves delta).length + opened.toNat + leaves.toNat =
      (piece false false delta).length := by
  have hsegment := congrArg List.length (segmentBy_eq_piece hopened leaves)
  rw [← piece_eq_segmentBy, List.length_append, List.length_append] at hsegment
  rw [hsegment]
  cases opened <;> cases leaves <;> simp <;> omega

/-- Each dropped pair makes the program two instructions shorter. -/
theorem length_finished_add_seams (deltas : List Int) :
    (pieces .finished false deltas).flatten.length + 2 * seams deltas =
      (segments deltas).length := by
  have hsum := @add_seams false deltas (fun opened ds => (pieces .finished opened ds).flatten.length)
    (fun opened leaves delta => (piece opened leaves delta).length) (fun _ => rfl)
    (fun opened delta deltas => by simp [pieces])
    (fun opened leaves delta h => length_piece_add leaves h)
    (fun h => absurd h Bool.false_ne_true)
  have hsegments : (segments deltas).length =
      (deltas.map fun delta => (piece false false delta).length).sum := by
    unfold segments
    rw [List.length_flatMap]
    simp only [piece_eq_segmentBy]
  rw [hsegments, ← hsum]
  rfl

/-! ## Nothing is left to drop -/

/-- A long segment does not begin with a move. -/
theorem opposite_head_pieces (hlong : Stage.finished.joins deltas = false) :
    ∀ b ∈ (pieces .finished false deltas).flatten.head?, opposite '<' b = false := by
  intro b hb
  cases deltas with
  | nil => simp [pieces] at hb
  | cons delta deltas =>
      rcases exists_move_eq_cons delta with ⟨rest, hrest⟩
      have hshort : isShort delta = false := hlong
      rw [hshort] at hrest
      unfold pieces piece at hb
      rw [hrest] at hb
      obtain rfl : '+' = b := Option.some.inj hb
      rfl

/-- There is nothing to drop from a program that the pass has been made on, at none of
its seams. -/
theorem dropPairs_flatten_pieces (opened : Bool) (deltas : List Int) :
    dropPairs (pieces .finished opened deltas).flatten =
      (pieces .finished opened deltas).flatten := by
  induction deltas generalizing opened with
  | nil => rfl
  | cons delta deltas ih =>
      -- the print divides the pass: the move is in front of it, the seam and the rest behind
      have hpieces : (pieces .finished opened (delta :: deltas)).flatten =
          move opened delta ++ '.' :: ((if Stage.finished.joins deltas then [] else ['<']) ++
            (pieces .finished (Stage.finished.joins deltas) deltas).flatten) := by
        simp [pieces, piece]
      have hrest : dropPairs ((if Stage.finished.joins deltas then [] else ['<']) ++
            (pieces .finished (Stage.finished.joins deltas) deltas).flatten) =
          (if Stage.finished.joins deltas then [] else ['<']) ++
            (pieces .finished (Stage.finished.joins deltas) deltas).flatten := by
        cases hjoins : Stage.finished.joins deltas with
        | true => exact ih true
        | false =>
            -- the move back to the counter is kept in front of a long segment
            have hcut : Settled ['<'] (pieces .finished false deltas).flatten :=
              settled_concat (settled_nil_left ['<']) (opposite_head_pieces hjoins)
            have hback := dropPairs_append hcut
            rw [ih false] at hback
            exact hback
      rw [hpieces, dropPairs_append_cons (by decide), dropPairs_move, hrest]

/-- The program for a line, piece by piece. -/
theorem program_eq_flatten (text : String) :
    program text = (pieces .finished false (Text.deltas (Text.units text))).flatten :=
  (flatten_parts .finished text).symm

/-- No two opposite moves stand side by side in a program. -/
theorem pairFree_program (text : String) : PairFree (program text) := by
  rw [program_eq_flatten, ← dropPairs_eq_self_iff]
  exact dropPairs_flatten_pieces false _

/-- The program for a line is its segments without the pairs at the seams in
front of the short ones, and nothing else is missing. There is no pair in it, so
making the pass again and again gives the same program. -/
theorem program_of_seams (text : String) :
    rawProgram text = ((Text.deltas (Text.units text)).map segmentBy).flatten ∧
      (∃ parts : List (List Char), program text = parts.flatten ∧
        parts.length = (Text.deltas (Text.units text)).length ∧
        ∀ j delta, (Text.deltas (Text.units text))[j]? = some delta →
          ∃ part front back, parts[j]? = some part ∧
            segmentBy delta = front ++ part ++ back ∧
            (DropsSeam (Text.deltas (Text.units text)) j ∧ front = ['>'] ∨
              ¬ DropsSeam (Text.deltas (Text.units text)) j ∧ front = []) ∧
            (DropsSeam (Text.deltas (Text.units text)) (j + 1) ∧ back = ['<'] ∨
              ¬ DropsSeam (Text.deltas (Text.units text)) (j + 1) ∧ back = [])) ∧
      PairFree (program text) ∧
      (program text).length + 2 * seams (Text.deltas (Text.units text)) =
        (rawProgram text).length ∧
      dropPairsFully (rawProgram text) = program text := by
  refine ⟨?_, ?_, pairFree_program text, ?_, dropPairsFully_of_pairFree (pairFree_program text)⟩
  · exact List.flatMap_def
  · refine ⟨_, program_eq_flatten text, length_pieces _ _ _, ?_⟩
    intro j delta h
    exact exists_part h
  · rw [program_eq_flatten]
    exact length_finished_add_seams _

end TapeText.Code
