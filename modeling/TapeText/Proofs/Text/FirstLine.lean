import Mathlib.Data.List.Basic
import TapeText.Proofs.Text.Lines

/-!
# TapeText.Proofs.Text.FirstLine — the first line and the last one

A sequence begins with a line: it goes to the first line feed, or to the one
carriage return in front of that, or to the end. What is behind the ending of
the line is the rest. At the other end, lines put one behind the other have the
last of them as their last one.

* `Begins` — a line at the front of a sequence, and the rest;
* `Begins.flatMap` — the front of an encoded sequence;
* `begins_iff` — the cut at the first line feed finds it, and nothing else does;
* `getLast?_pieces_append` — the last part of two sequences, if the first one
  is complete.
-/

namespace TapeText.Text

variable {α β : Type} {feed ret : α} {xs ys line rest : List α}

/-- The line is at the front of the sequence. It is ended by a `ret` and a
`feed`, by a `feed` alone, or by the end of the sequence. -/
def Begins (feed ret : α) (xs line rest : List α) : Prop :=
  feed ∉ line ∧
    (xs = line ++ ret :: feed :: rest ∨
      (xs = line ++ feed :: rest ∧ line.getLast? ≠ some ret) ∨
      (xs = line ∧ rest = []))

/-- The first line of an encoding is the encoding of the first line. -/
theorem Begins.flatMap {encode : α → List β} {mark back : β} (hfeed : Marks encode feed mark)
    (hret : Marks encode ret back) (hencode : ∀ x, encode x ≠ [])
    (h : Begins feed ret xs line rest) :
    Begins mark back (xs.flatMap encode) (line.flatMap encode) (rest.flatMap encode) := by
  -- the three endings of a line: both marks, one, or none
  rcases h with ⟨hline, rfl | ⟨rfl, hlast⟩ | ⟨rfl, rfl⟩⟩
  · refine ⟨hfeed.notMem_flatMap hline, .inl ?_⟩
    rw [hret.flatMap_append_cons, List.flatMap_cons, hfeed.spelled]
    rfl
  · refine ⟨hfeed.notMem_flatMap hline, .inr (.inl ⟨hfeed.flatMap_append_cons line rest, ?_⟩)⟩
    rwa [ne_eq, hret.getLast?_flatMap_iff hencode]
  · exact ⟨hfeed.notMem_flatMap hline, .inr (.inr ⟨rfl, rfl⟩)⟩

variable [BEq α] [LawfulBEq α]

/-! ## The first line -/

/-- A line in front of a rest is found by the cut at the first `feed`. -/
theorem Begins.firstPiece_eq (hret : ret ≠ feed) (h : Begins feed ret xs line rest) :
    IsBody feed ret (firstPiece feed xs) line ∧ rest = afterFirst feed xs := by
  rcases h with ⟨hfeed, rfl | ⟨rfl, hlast⟩ | ⟨rfl, rfl⟩⟩
  · have hline : feed ∉ line ++ [ret] := by
      intro hmem
      rcases List.mem_append.1 hmem with hmem | hmem
      · exact hfeed hmem
      · exact hret (List.mem_singleton.1 hmem).symm
    have hxs : line ++ ret :: feed :: rest = (line ++ [ret]) ++ feed :: rest := by simp
    rw [hxs, firstPiece_append_cons hline, afterFirst_append_cons hline, List.append_assoc]
    exact ⟨.inl rfl, rfl⟩
  · rw [firstPiece_append_cons hfeed, afterFirst_append_cons hfeed]
    exact ⟨.inr (.inl ⟨rfl, hlast⟩), rfl⟩
  · rw [firstPiece_of_notMem hfeed, afterFirst_of_notMem hfeed]
    refine ⟨.inr (.inr ⟨rfl, ?_⟩), rfl⟩
    intro hlast
    exact hfeed (List.mem_of_getLast? hlast)

/-- What the cut leaves of the first part is a line at the front. -/
theorem begins_withoutEnding (feed ret : α) (xs : List α) :
    Begins feed ret xs (withoutEnding feed ret (firstPiece feed xs)) (afterFirst feed xs) := by
  by_cases hfeed : feed ∈ xs
  · rcases List.eq_append_cons_of_mem hfeed with ⟨front, rest, rfl, hfront⟩
    rw [firstPiece_append_cons hfront, afterFirst_append_cons hfront]
    -- of a `ret` in front of the `feed` exactly one is taken off
    by_cases hlast : front.getLast? = some ret
    · rcases List.getLast?_eq_some_iff.1 hlast with ⟨line, rfl⟩
      have hpiece : line ++ [ret] ++ [feed] = line ++ [ret, feed] := by simp
      rw [hpiece, withoutEnding_concat_concat]
      refine ⟨fun hmem => hfront (List.mem_append_left _ hmem), .inl ?_⟩
      simp
    · rw [withoutEnding_concat hlast]
      exact ⟨hfront, .inr (.inl ⟨rfl, hlast⟩)⟩
  · -- all of it is the first line, and there is no ending to take off
    have hlast : xs.getLast? ≠ some feed := by
      intro hlast
      exact hfeed (List.mem_of_getLast? hlast)
    rw [firstPiece_of_notMem hfeed, afterFirst_of_notMem hfeed, withoutEnding_of_getLast?_ne hlast]
    exact ⟨hfeed, .inr (.inr ⟨rfl, rfl⟩)⟩

/-- There is one way only to take the first line off a sequence. -/
theorem begins_iff (hret : ret ≠ feed) :
    Begins feed ret xs line rest ↔
      line = withoutEnding feed ret (firstPiece feed xs) ∧ rest = afterFirst feed xs := by
  constructor
  · intro h
    rcases h.firstPiece_eq hret with ⟨hbody, hrest⟩
    exact ⟨(isBody_iff.1 hbody).symm, hrest⟩
  · rintro ⟨rfl, rfl⟩
    exact begins_withoutEnding feed ret xs

/-! ## The last line -/

/-- A sequence that is complete is cut apart from what follows it. -/
theorem pieces_append (h : xs = [] ∨ xs.getLast? = some feed) (ys : List α) :
    pieces feed (xs ++ ys) = pieces feed xs ++ pieces feed ys := by
  -- induction along the lines of the first sequence
  induction xs using lines_induction feed with
  | nil => rw [pieces_nil]; rfl
  | last xs hfeed hxs =>
      rcases h with hnil | hlast
      · exact absurd hnil hxs
      · exact absurd (List.mem_of_getLast? hlast) hfeed
  | line line rest hline ih =>
      have hrest : rest = [] ∨ rest.getLast? = some feed := by
        rcases h with hnil | hlast
        · simp at hnil
        · rw [List.getLast?_append_of_ne_nil line (List.cons_ne_nil feed rest)] at hlast
          cases rest with
          | nil => exact .inl rfl
          | cons x rest => exact .inr hlast
      rw [List.append_assoc, List.cons_append, pieces_append_cons hline, pieces_append_cons hline,
        ih hrest, List.cons_append]

/-- Behind a complete sequence, a line with a `feed` at its end is the last
part. -/
theorem getLast?_pieces_append (h : xs = [] ∨ xs.getLast? = some feed) (hline : feed ∉ line) :
    (pieces feed (xs ++ (line ++ [feed]))).getLast? = some (line ++ [feed]) := by
  rw [pieces_append h, pieces_append_cons hline, pieces_nil, List.getLast?_concat]

end TapeText.Text
