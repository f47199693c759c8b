import TapeText.Code.Program
import TapeText.Proofs.Code.Shifts
import TapeText.Proofs.Loop.Bounds

/-!
# TapeText.Proofs.Code.Pieces — a program unit by unit

What one segment contributes to a program. Before the pass that is the whole
segment. Behind it two neighbours may have lost the moves that cancelled
between them: the first one leaves the pointer on the register, and the second
one finds it there. Only a short segment begins with a move, so only a short
one can find the pointer on the register.

* `Stage` — before or behind the pass;
* `piece`, `pieces`, `pieceStart` — the contributions of the segments of a
  program, and where each of them begins;
* `flatten_parts` — they are all of it.
-/

namespace TapeText.Code

open Brackets

/-- A program before or behind the pass. -/
inductive Stage where
  | raw
  | finished
deriving DecidableEq, Repr

def Stage.code : Stage → String → List Char
  | raw, text => rawProgram text
  | finished, text => program text

/-- The move is written out without a loop. -/
def isShort (delta : Int) : Bool := delta.natAbs ≤ directLimit

/-- The body of a loop moves the register and counts down. -/
def loopBody (direction : Direction) (stride : Nat) : List Char :=
  '>' :: (steps direction stride ++ ['<', '-'])

/-- The loop of a plan, and the correction behind it. It starts on the counter
and ends on the register. -/
def loopMove (plan : Loop.Plan) (direction : Direction) : List Char :=
  steps .up plan.rounds ++
    '[' :: (loopBody direction plan.stride ++
      ']' :: '>' :: stepsBy (direction.sign * plan.correction))

/-- The code that moves the register, up to the print. If the pointer is on
the register already, a short move need not go there. -/
def move (opened : Bool) (delta : Int) : List Char :=
  if isShort delta then (if opened then [] else ['>']) ++ stepsBy delta
  else loopMove (.best delta.natAbs) (.ofDelta delta)

/-- The contribution of a segment: it may find the pointer on the register,
and it may leave it there. -/
def piece (opened leaves : Bool) (delta : Int) : List Char :=
  move opened delta ++ '.' :: if leaves then [] else ['<']

/-- The moves between a segment and the ones behind it have been dropped. -/
def Stage.joins : Stage → List Int → Bool
  | raw, _ => false
  | finished, [] => false
  | finished, delta :: _ => isShort delta

/-- The contributions of the segments of a program. -/
def pieces (stage : Stage) : (opened : Bool) → List Int → List (List Char)
  | _, [] => []
  | opened, delta :: deltas =>
    piece opened (stage.joins deltas) delta :: pieces stage (stage.joins deltas) deltas

/-- There is one piece for each segment. -/
theorem length_pieces (stage : Stage) (opened : Bool) (deltas : List Int) :
    (pieces stage opened deltas).length = deltas.length := by
  induction deltas generalizing opened with
  | nil => rfl
  | cons delta deltas ih => exact congrArg (· + 1) (ih _)

/-- The pieces of the program for a text. -/
def Stage.parts (stage : Stage) (text : String) : List (List Char) :=
  pieces stage false (Text.deltas (Text.units text))

/-- The position where a piece of a program begins. -/
def pieceStart (parts : List (List Char)) (j : Nat) : Nat := (parts.take j).flatten.length

@[simp] theorem pieceStart_zero (parts : List (List Char)) : pieceStart parts 0 = 0 := rfl

@[simp] theorem pieceStart_cons_succ (part : List Char) (parts : List (List Char)) (j : Nat) :
    pieceStart (part :: parts) (j + 1) = part.length + pieceStart parts j := by
  unfold pieceStart
  rw [List.take_succ_cons, List.flatten_cons, List.length_append]

/-- A piece ends where the next one begins. -/
theorem pieceStart_succ {parts : List (List Char)} {part : List Char} {j : Nat}
    (h : parts[j]? = some part) : pieceStart parts (j + 1) = pieceStart parts j + part.length := by
  unfold pieceStart
  rw [List.take_add_one, h, List.flatten_append, List.length_append]
  simp

/-- The position lies in a piece of a program. -/
def InPiece (parts : List (List Char)) (j ip : Nat) : Prop :=
  pieceStart parts j ≤ ip ∧ ip < pieceStart parts (j + 1)

/-- No piece begins behind the end of the program. -/
theorem pieceStart_le (parts : List (List Char)) (j : Nat) :
    pieceStart parts j ≤ parts.flatten.length := by
  -- what is in front of a piece is followed by the rest of the program
  have hparts : (parts.take j).flatten ++ (parts.drop j).flatten = parts.flatten := by
    rw [← List.flatten_append, List.take_append_drop]
  unfold pieceStart
  rw [← hparts, List.length_append]
  exact Nat.le_add_right _ _

/-- Pieces begin one behind the other. -/
theorem pieceStart_mono (parts : List (List Char)) {j k : Nat} (h : j ≤ k) :
    pieceStart parts j ≤ pieceStart parts k := by
  have htake : (parts.take k).take j = parts.take j := by
    rw [List.take_take, Nat.min_eq_left h]
  have hle := pieceStart_le (parts.take k) j
  unfold pieceStart at hle ⊢
  rwa [htake] at hle

/-- A position lies in one piece at most. -/
theorem InPiece.unique {parts : List (List Char)} {j k ip : Nat} (hj : InPiece parts j ip)
    (hk : InPiece parts k ip) : j = k := by
  rcases hj with ⟨hj₁, hj₂⟩
  rcases hk with ⟨hk₁, hk₂⟩
  rcases Nat.lt_trichotomy j k with hlt | heq | hgt
  · have hmono : pieceStart parts (j + 1) ≤ pieceStart parts k := pieceStart_mono parts hlt
    omega
  · exact heq
  · have hmono : pieceStart parts (k + 1) ≤ pieceStart parts j := pieceStart_mono parts hgt
    omega

variable {stage : Stage} {opened : Bool} {delta : Int} {deltas : List Int}

@[simp] theorem Stage.joins_nil (stage : Stage) : stage.joins [] = false := by
  cases stage <;> rfl

/-- Only a short segment joins the one before it. -/
theorem isShort_of_joins (h : stage.joins (delta :: deltas) = true) : isShort delta = true := by
  cases stage with
  | raw => exact absurd h Bool.false_ne_true
  | finished => exact h

/-- A whole segment is a piece with both its moves. -/
theorem piece_eq_segmentBy (delta : Int) : piece false false delta = segmentBy delta := by
  unfold piece move segmentBy segment isShort
  -- the offset of the register is one, so the way there and back is a single move
  by_cases h : delta.natAbs ≤ directLimit
  · rw [if_pos h]
    simp [h, directSegment, toRegister, toCounter, registerOffset, stepsBy]
  · rw [if_neg h]
    simp [h, loopMove, loopBody, loopSegment, toRegister, toCounter, registerOffset]

/-- A piece that finds the pointer on the register lacks the move there. -/
theorem piece_opened (h : isShort delta = true) (leaves : Bool) :
    piece false leaves delta = '>' :: piece true leaves delta := by
  simp [piece, move, h]

/-! ## The pass, piece by piece -/

theorem isFixed_symbol (direction : Direction) : IsFixed direction.symbol := by
  cases direction <;> decide

theorem isFixed_of_mem_steps {direction : Direction} {count : Nat} {c : Char}
    (h : c ∈ steps direction count) : IsFixed c := by
  obtain rfl := List.eq_of_mem_replicate h
  exact isFixed_symbol direction

/-- There is nothing to drop from characters that do not move the pointer. -/
theorem dropPairs_append_of_forall_fixed {front : List Char} (h : ∀ c ∈ front, IsFixed c)
    (back : List Char) : dropPairs (front ++ back) = front ++ dropPairs back := by
  induction front with
  | nil => rfl
  | cons c front ih =>
      have hmore : ∀ d ∈ front, IsFixed d := by
        intro d hd
        exact h d (List.mem_cons_of_mem c hd)
      have hfront := ih hmore
      rw [List.cons_append, dropPairs_cons_of_fixed (h c List.mem_cons_self), hfront]
      rfl

/-- There is nothing to drop from steps. -/
theorem dropPairs_steps_append (direction : Direction) (count : Nat) (back : List Char) :
    dropPairs (steps direction count ++ back) = steps direction count ++ dropPairs back := by
  apply dropPairs_append_of_forall_fixed
  intro c hc
  exact isFixed_of_mem_steps hc

theorem dropPairs_steps (direction : Direction) (count : Nat) :
    dropPairs (steps direction count) = steps direction count := by
  simpa using dropPairs_steps_append direction count []

/-- A move is kept in front of a step. -/
theorem dropPairs_cons_steps_append (a : Char) (direction : Direction) {count : Nat}
    (h : 0 < count) (back : List Char) :
    dropPairs (a :: (steps direction count ++ back)) =
      a :: (steps direction count ++ dropPairs back) := by
  rcases Nat.exists_eq_add_of_lt h with ⟨k, rfl⟩
  have hsteps : steps direction (0 + k + 1) = direction.symbol :: steps direction (0 + k) :=
    List.replicate_succ
  rw [← dropPairs_steps_append, hsteps]
  exact dropPairs_of_not_opposite ((isFixed_symbol direction).opposite_right a) _

theorem dropPairs_cons_steps (a : Char) (direction : Direction) (count : Nat) :
    dropPairs (a :: steps direction count) = a :: steps direction count := by
  rcases Nat.eq_zero_or_pos count with rfl | h
  · rfl
  · simpa using dropPairs_cons_steps_append a direction h []

/-- There is nothing to drop from a loop, if it moves the register at all: without a
stride its body would be a pair. -/
theorem dropPairs_loopMove {plan : Loop.Plan} (hplan : 0 < plan.stride) (direction : Direction) :
    dropPairs (loopMove plan direction) = loopMove plan direction := by
  -- the two moves of the body are kept apart by the stride
  have hbody : dropPairs (loopBody direction plan.stride) = loopBody direction plan.stride := by
    unfold loopBody
    rw [dropPairs_cons_steps_append '>' direction hplan]
    rfl
  unfold loopMove stepsBy
  rw [dropPairs_steps_append, dropPairs_cons_of_fixed isFixed_open,
    dropPairs_append_cons isFixed_close, hbody, dropPairs_cons_steps]

/-- There is nothing to drop from a move. -/
theorem dropPairs_move (opened : Bool) (delta : Int) :
    dropPairs (move opened delta) = move opened delta := by
  unfold move
  split
  · cases opened with
    | true => exact dropPairs_steps _ _
    | false => exact dropPairs_cons_steps '>' _ _
  · exact dropPairs_loopMove (Loop.Plan.best_serves _).stride_pos _

/-! ## The pieces of a program -/

/-- A short segment begins with a move to the register, and a long one does
not. -/
theorem exists_move_eq_cons (delta : Int) :
    ∃ rest, move false delta = (if isShort delta then '>' else '+') :: rest := by
  unfold move
  split
  · exact ⟨_, rfl⟩
  · -- a loop has a round or more, so it begins by counting up
    obtain ⟨k, hk⟩ :=
      Nat.exists_eq_add_of_lt (Loop.Plan.best_serves delta.natAbs).rounds_pos
    unfold loopMove
    rw [hk]
    exact ⟨_, rfl⟩

/-- The same of a whole segment, which begins with its move. -/
theorem exists_segmentBy_eq_cons (delta : Int) :
    ∃ rest, segmentBy delta = (if isShort delta then '>' else '+') :: rest := by
  rcases exists_move_eq_cons delta with ⟨rest, hrest⟩
  rw [← piece_eq_segmentBy]
  unfold piece
  rw [hrest]
  exact ⟨_, rfl⟩

/-- What the pass makes of a seam between two segments. -/
theorem dropPairs_seam (deltas : List Int) :
    dropPairs ('<' :: segments deltas) =
      if Stage.finished.joins deltas then dropPairs (segments deltas).tail
      else '<' :: dropPairs (segments deltas) := by
  cases deltas with
  | nil => rfl
  | cons delta deltas =>
      rcases exists_segmentBy_eq_cons delta with ⟨rest, hrest⟩
      have hjoins : Stage.finished.joins (delta :: deltas) = isShort delta := rfl
      rw [segments_cons, hrest, hjoins]
      by_cases h : isShort delta
      · -- the two moves at the seam cancel
        have hpair : opposite '<' '>' = true := rfl
        rw [if_pos h, if_pos h]
        exact dropPairs_of_opposite hpair _
      · -- the move back is followed by a step of the counter and stays
        have hpair : opposite '<' '+' = false := rfl
        rw [if_neg h, if_neg h]
        exact dropPairs_of_not_opposite hpair _

/-- Before the pass the pieces are the segments. -/
theorem flatten_pieces_raw (deltas : List Int) :
    (pieces .raw false deltas).flatten = segments deltas := by
  induction deltas with
  | nil => rfl
  | cons delta deltas ih =>
      have hpiece : (pieces .raw false (delta :: deltas)) =
          piece false false delta :: pieces .raw false deltas := rfl
      rw [hpiece, List.flatten_cons, ih, piece_eq_segmentBy, segments_cons]

/-- The rest of a program, from the register on or as a whole. -/
theorem flatten_pieces_finished (deltas : List Int) {opened : Bool}
    (hopened : opened = true → Stage.finished.joins deltas = true) :
    (pieces .finished opened deltas).flatten =
      dropPairs (if opened then (segments deltas).tail else segments deltas) := by
  induction deltas generalizing opened with
  | nil => cases opened <;> rfl
  | cons delta deltas ih =>
      -- in both cases the move and its print are in front of the next seam
      have hrest : (if opened then (segments (delta :: deltas)).tail
          else segments (delta :: deltas)) = move opened delta ++ '.' :: '<' :: segments deltas := by
        rw [segments_cons, ← piece_eq_segmentBy]
        cases opened with
        | true =>
            rw [piece_opened (hopened rfl)]
            simp [piece]
        | false => simp [piece]
      -- the pieces behind the seam find the pointer where the seam leaves it
      have ihrest := ih (fun h => h)
      rw [hrest, dropPairs_append_cons (by decide), dropPairs_move, dropPairs_seam]
      unfold pieces piece
      rw [List.flatten_cons, ihrest]
      cases Stage.finished.joins deltas <;> simp

/-- The pieces are all of the program. -/
theorem flatten_parts (stage : Stage) (text : String) :
    (stage.parts text).flatten = stage.code text := by
  cases stage with
  | raw => exact flatten_pieces_raw _
  | finished =>
      apply flatten_pieces_finished
      intro h
      exact absurd h Bool.false_ne_true

/-! ## Brackets -/

/-- Steps are no brackets. -/
theorem balanced_steps (direction : Direction) (count : Nat) :
    Balanced (steps direction count) := by
  apply balanced_of_forall
  intro c hc
  obtain rfl := List.eq_of_mem_replicate hc
  cases direction <;> decide

/-- There is no bracket in the body of a loop either. -/
theorem balanced_loopBody (direction : Direction) (stride : Nat) :
    Balanced (loopBody direction stride) := by
  have hend : Balanced ['<', '-'] := by decide
  exact .other (by decide) ((balanced_steps direction stride).append hend)

@[simp] theorem length_loopBody (direction : Direction) (stride : Nat) :
    (loopBody direction stride).length = stride + 3 := by
  simp [loopBody]

theorem balanced_move (opened : Bool) (delta : Int) : Balanced (move opened delta) := by
  unfold move
  split
  · have hlead : Balanced (if opened then [] else ['>']) := by cases opened <;> decide
    exact hlead.append (balanced_steps _ _)
  · apply (balanced_steps _ _).append
    exact .loop (balanced_loopBody _ _) (.other (by decide) (balanced_steps _ _))

/-- The only brackets of a piece are those of its loop. -/
theorem balanced_piece (opened leaves : Bool) (delta : Int) :
    Balanced (piece opened leaves delta) := by
  have hend : Balanced ('.' :: if leaves then [] else ['<']) := by cases leaves <;> decide
  exact (balanced_move opened delta).append hend

theorem balanced_segmentBy (delta : Int) : Balanced (segmentBy delta) := by
  rw [← piece_eq_segmentBy]
  exact balanced_piece false false delta

theorem balanced_of_mem_pieces {part : List Char} (h : part ∈ pieces stage opened deltas) :
    Balanced part := by
  induction deltas generalizing opened with
  | nil => simp [pieces] at h
  | cons delta deltas ih =>
      rcases List.mem_cons.1 h with rfl | h
      · exact balanced_piece _ _ _
      · exact ih h

/-- The brackets of a program are balanced, before and behind the pass. -/
theorem balanced_code (stage : Stage) (text : String) : Balanced (stage.code text) := by
  rw [← flatten_parts]
  apply balanced_flatten
  intro part h
  exact balanced_of_mem_pieces h

end TapeText.Code
