import TapeText.Code.Segment
import TapeText.Proofs.Loop.Rounds

/-!
# TapeText.Proofs.Code.Length — how long a segment is

A segment is as long as its move, and a few symbols for the way there, the print
and the way back. A loop has five of them more than a plain move. The limit up to
which moves are written out is the right one, but for one magnitude: 14 is beyond
it, and its loop is one symbol longer than the move. From there on a loop grows with
a fifth of the magnitude at most.

* `length_loopSegment_best` — the length of a loop in terms of its plan;
* `length_loop_within_two` — another loop is at most two symbols shorter;
* `length_segment_least` — a segment takes the shorter form of the two;
* `length_segment_le_fifth` — how long a segment with a loop can be.
-/

namespace TapeText.Code

open Loop (Plan)
open Loop.Plan (best maxMagnitude reach)

theorem length_loopSegment_best (n : Nat) (direction : Direction) :
    (loopSegment (.best n) direction).length = (best n).size + 8 :=
  length_loopSegment (best n) direction

/-- Beyond the limit a segment is a loop. -/
theorem segment_of_lt {n : Nat} (h : directLimit < n) (direction : Direction) :
    segment n direction = loopSegment (.best n) direction :=
  if_neg (Nat.not_le.2 h)

/-- A loop is as long as its plan and eight symbols more. For no magnitude do any
two factors, with a product in range and within reach, make a loop that is more
than two symbols shorter than the one that is searched for; and for some magnitude
two factors make one that is two symbols shorter. -/
theorem length_loop_within_two (n : Nat) (hn : n ≤ maxMagnitude) :
    (∀ (plan : Plan) (direction : Direction), (loopSegment plan direction).length =
      plan.rounds + plan.stride + plan.correction.natAbs + 8) ∧
    (∀ a b : Nat, 0 < a → 0 < b → a * b ≤ maxMagnitude →
      ((n : Int) - (a * b : Nat)).natAbs ≤ reach →
      (best n).rounds + (best n).stride + (best n).correction.natAbs ≤
        a + b + ((n : Int) - (a * b : Nat)).natAbs + 2) ∧
    ∃ m a b : Nat, m ≤ maxMagnitude ∧ 0 < a ∧ 0 < b ∧ a * b ≤ maxMagnitude ∧
      ((m : Int) - (a * b : Nat)).natAbs ≤ reach ∧
      (best m).rounds + (best m).stride + (best m).correction.natAbs =
        a + b + ((m : Int) - (a * b : Nat)).natAbs + 2 := by
  refine ⟨length_loopSegment, ?_, ?_⟩
  · intro a b ha hb hmax hnear
    exact Plan.size_best_le hn ha hb hmax hnear
  · -- the two more are needed: 5 * 6 - 2 has the smaller spread, 4 * 7 the smaller sum
    have hbest : best 28 = ⟨5, 6, -2⟩ := Plan.best_of_three_apart (k := 4) (by decide) (by decide)
    refine ⟨28, 4, 7, ?_⟩
    rw [hbest]
    decide

/-- Of 5 * 6 - 2 and 4 * 7 the search takes the longer one. -/
theorem length_loop_within_two_of_twenty_eight : (28 ≤ maxMagnitude ∧ 0 < 4 ∧ 0 < 7 ∧
      4 * 7 ≤ maxMagnitude ∧ (((28 : Nat) : Int) - (4 * 7 : Nat)).natAbs ≤ reach) ∧
    (best 28).rounds + (best 28).stride + (best 28).correction.natAbs ≤ 4 + 7 + 0 + 2 := by
  have hrange : 28 ≤ maxMagnitude ∧ 0 < 4 ∧ 0 < 7 ∧
      4 * 7 ≤ maxMagnitude ∧ (((28 : Nat) : Int) - (4 * 7 : Nat)).natAbs ≤ reach := by decide
  refine ⟨hrange, ?_⟩
  rcases hrange with ⟨hn, ha, hb, hmax, hnear⟩
  exact (length_loop_within_two 28 hn).2.1 4 7 ha hb hmax hnear

/-- A plain move is shorter than a loop up to 11 and for 14, and as long for 12 and
13. So a segment has the shorter form of the two, except that the one for 14 is a
loop and one symbol longer than the move. -/
theorem length_segment_least (n : Nat) (hn : n ≤ maxMagnitude) (direction : Direction) :
    (directSegment n direction).length = n + 3 ∧
    (loopSegment (.best n) direction).length =
      (best n).rounds + (best n).stride + (best n).correction.natAbs + 8 ∧
    ((directSegment n direction).length < (loopSegment (.best n) direction).length ↔
      n ≤ 11 ∨ n = 14) ∧
    ((directSegment n direction).length = (loopSegment (.best n) direction).length ↔
      n = 12 ∨ n = 13) ∧
    ((loopSegment (.best n) direction).length < (directSegment n direction).length ↔ 14 < n) ∧
    (n ≠ 14 →
      (segment n direction = directSegment n direction ∨
        segment n direction = loopSegment (.best n) direction) ∧
      (segment n direction).length =
        min (directSegment n direction).length (loopSegment (.best n) direction).length) ∧
    (n = 14 → segment n direction = loopSegment (.best n) direction ∧
      (segment n direction).length = (directSegment n direction).length + 1) := by
  have hdirect := length_directSegment n direction
  have hloop := length_loopSegment_best n direction
  rcases Plan.size_best_cases hn with ⟨hshorter, hequal⟩
  refine ⟨hdirect, hloop, by omega, by omega, by omega, ?_, ?_⟩
  · intro hne
    unfold segment directLimit
    split
    · exact ⟨.inl rfl, by omega⟩
    · exact ⟨.inr rfl, by omega⟩
  · rintro rfl
    -- the plan is 4 * 4 - 2, so the loop takes eighteen symbols and the move seventeen
    have hsize : (best 14).size = 10 := by decide +kernel
    have hsegment : segment 14 direction = loopSegment (.best 14) direction := if_neg (by decide)
    rw [hsegment]
    exact ⟨rfl, by omega⟩

/-- The magnitude for which the loop is the longer one. -/
theorem length_segment_least_at_fourteen : 14 ≤ maxMagnitude ∧
    (segment 14 .down).length = (directSegment 14 .down).length + 1 := by
  have hn : 14 ≤ maxMagnitude := by decide
  exact ⟨hn, ((length_segment_least 14 hn .down).2.2.2.2.2.2 rfl).2⟩

/-- The loop of a segment has at least three rounds, from 14 on at least four, and
from 23 on at least five. So no segment with a loop is longer than a fifth of its
magnitude and a few symbols. -/
theorem length_segment_le_fifth (n : Nat) (hn : n ≤ maxMagnitude) :
    (12 < n → 3 ≤ (best n).rounds) ∧ (14 ≤ n → 4 ≤ (best n).rounds) ∧
    (23 ≤ n → 5 ≤ (best n).rounds) ∧
    (12 < n → ∀ direction, (segment n direction).length ≤ (n + 2) / 5 + 15) := by
  have hfive := Plan.five_le_rounds_best hn
  have hsmall := Plan.rounds_best_small n
  refine ⟨?_, ?_, hfive, ?_⟩
  · intro hlong
    rcases Nat.lt_or_ge n 23 with hless | hlarge
    · exact (hsmall hless hlong).1
    · exact Nat.le_trans (by decide) (hfive hlarge)
  · intro hlong
    rcases Nat.lt_or_ge n 23 with hless | hlarge
    · exact (hsmall hless (by omega)).2.1 hlong
    · exact Nat.le_trans (by decide) (hfive hlarge)
  · intro hlong direction
    have hsize := Plan.size_best_le_fifth hn hlong
    rw [segment_of_lt hlong, length_loopSegment_best]
    omega

/-- The largest magnitude of all, where the search sees no number above it. -/
theorem length_segment_le_fifth_at_top : (4294967295 ≤ maxMagnitude ∧ 23 ≤ 4294967295 ∧
      12 < 4294967295) ∧ 5 ≤ (best 4294967295).rounds ∧
    (segment 4294967295 .down).length ≤ 858993474 := by
  have hn : 4294967295 ≤ maxMagnitude := by decide
  have hbounds := length_segment_le_fifth 4294967295 hn
  exact ⟨⟨hn, by decide, by decide⟩, hbounds.2.2.1 (by decide), hbounds.2.2.2 (by decide) .down⟩

end TapeText.Code
