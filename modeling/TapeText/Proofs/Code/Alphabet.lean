import TapeText.Code.Program
import TapeText.Proofs.Code.Shifts

/-!
# TapeText.Proofs.Code.Alphabet — the characters of a program

A program is written in seven characters. Segments are put together from these,
and the pass only takes some of them away. None of them ends a line, so a
program is one line of text.

* `dropPairs_sublist` — the pass takes characters away;
* `segmentBy_subset`, `program_subset` — the characters of segments and of
  programs.
-/

namespace TapeText.Code

/-- The characters of programs. -/
def instructions : List Char := ['+', '-', '<', '>', '[', ']', '.']

/-- The pass takes characters away and puts none in. -/
theorem dropPairs_sublist (code : List Char) : (dropPairs code).Sublist code := by
  induction code using pass_induction with
  | nil => exact List.Sublist.refl _
  | single a => exact List.Sublist.refl _
  | drop a b rest hab ih =>
      rw [dropPairs_of_opposite hab]
      exact (ih.cons b).cons a
  | keep a b rest hab ih =>
      rw [dropPairs_of_not_opposite hab]
      exact ih.cons_cons a

/-! ## Segments -/

theorem replicate_subset {c : Char} (h : c ∈ instructions) (count : Nat) :
    List.replicate count c ⊆ instructions := by
  intro d hd
  obtain rfl := List.eq_of_mem_replicate hd
  exact h

theorem steps_subset (direction : Direction) (count : Nat) :
    steps direction count ⊆ instructions := by
  apply replicate_subset
  cases direction <;> decide

theorem toRegister_subset : toRegister ⊆ instructions := replicate_subset (by decide) _

theorem toCounter_subset : toCounter ⊆ instructions := replicate_subset (by decide) _

/-- A segment without a loop is written in the seven characters. -/
theorem directSegment_subset (magnitude : Nat) (direction : Direction) :
    directSegment magnitude direction ⊆ instructions := by
  simp only [directSegment, List.append_subset, List.cons_subset]
  refine ⟨⟨toRegister_subset, steps_subset _ _⟩, ?_, toCounter_subset⟩
  decide

/-- So is a segment with a loop. -/
theorem loopSegment_subset (plan : Loop.Plan) (direction : Direction) :
    loopSegment plan direction ⊆ instructions := by
  have hopen : '[' ∈ instructions := by decide
  have hclose : ['-', ']'] ⊆ instructions := by decide
  have hprint : '.' ∈ instructions := by decide
  have hbody : toRegister ++ steps direction plan.stride ++ toCounter ++ ['-', ']'] ⊆
      instructions :=
    List.append_subset.2 ⟨List.append_subset.2 ⟨List.append_subset.2
      ⟨toRegister_subset, steps_subset _ _⟩, toCounter_subset⟩, hclose⟩
  unfold loopSegment
  -- the moves of the body occur once more behind the loop
  generalize toRegister ++ steps direction plan.stride ++ toCounter ++ ['-', ']'] = body at hbody
  simp only [List.append_subset, List.cons_subset]
  exact ⟨⟨⟨⟨steps_subset _ _, hopen, hbody⟩, toRegister_subset⟩, steps_subset _ _⟩, hprint,
    toCounter_subset⟩

theorem segmentBy_subset (delta : Int) : segmentBy delta ⊆ instructions := by
  unfold segmentBy segment
  split
  · exact directSegment_subset _ _
  · exact loopSegment_subset _ _

/-! ## Programs -/

/-- A program has no characters but the seven, neither before nor behind the
pass. -/
theorem rawProgram_subset (text : String) : rawProgram text ⊆ instructions := by
  intro c hc
  rcases List.mem_flatMap.1 hc with ⟨delta, -, hdelta⟩
  exact segmentBy_subset delta hdelta

/-- The pass brings in no other character. -/
theorem program_subset (text : String) : program text ⊆ instructions := by
  intro c hc
  exact rawProgram_subset text ((dropPairs_sublist _).subset hc)

end TapeText.Code
