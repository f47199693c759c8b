import TapeText.Text.Lines

/-!
# TapeText.Proofs.Text.Lines — where a sequence is cut

A sequence either has no line feed, or it is a line, a line feed behind it, and
a rest. What the cuts make of these two forms is all that has to be known about
them; everything else here is by induction along the lines.

* `IsCut`, `IsBody`, `Marks` — what the parts of a sequence are, what is left of
  a part without its ending, and which element of an encoding stands for a line
  feed;
* `lines_induction` — a sequence without a line feed, or a line in front of a
  rest;
* `isCut_iff`, `isBody_iff` — the cuts meet their descriptions, and nothing else
  does;
* `pieces_flatMap` — cutting a text and cutting its bytes is the same.
-/

namespace TapeText.Text

variable {α β : Type} {feed ret : α} {xs line rest : List α}

/-! ## What a cut has to be -/

/-- The parts of a sequence that is cut behind each `feed`: none is empty, each
has at most the one `feed` at its end, and only the last one may lack it. -/
structure IsCut (feed : α) (xs : List α) (parts : List (List α)) : Prop where
  flatten_eq : parts.flatten = xs
  nil_notMem : [] ∉ parts
  feed_notMem : ∀ part ∈ parts, feed ∉ part.dropLast
  getLast?_eq : ∀ part ∈ parts.dropLast, part.getLast? = some feed

/-- Without its first part, what is left is cut as well. -/
theorem IsCut.tail {part : List α} {parts : List (List α)}
    (h : IsCut feed xs (part :: parts)) : IsCut feed parts.flatten parts := by
  constructor
  · rfl
  · exact fun hmem => h.nil_notMem (List.mem_cons_of_mem _ hmem)
  · exact fun other hother => h.feed_notMem other (List.mem_cons_of_mem _ hother)
  · intro other hother
    apply h.getLast?_eq
    cases parts with
    | nil => simp at hother
    | cons next more => exact List.mem_cons_of_mem _ hother

/-- What is left of a part without its ending: the part has a `ret` and a `feed`
behind it, or a `feed` alone, or there is no ending at all. -/
def IsBody (feed ret : α) (part body : List α) : Prop :=
  part = body ++ [ret, feed] ∨
    (part = body ++ [feed] ∧ body.getLast? ≠ some ret) ∨
    (part = body ∧ part.getLast? ≠ some feed)

/-! ## Encodings -/

/-- An encoding spells `a` as `b` alone, and uses `b` for nothing else. -/
structure Marks (encode : α → List β) (a : α) (b : β) : Prop where
  spelled : encode a = [b]
  notMem : ∀ x, x ≠ a → b ∉ encode x

variable {encode : α → List β} {mark : β}

/-- No mark comes from anything but a `feed`. -/
theorem Marks.notMem_flatMap (h : Marks encode feed mark) (hxs : feed ∉ xs) :
    mark ∉ xs.flatMap encode := by
  intro hmem
  rcases List.mem_flatMap.1 hmem with ⟨x, hx, hmark⟩
  apply h.notMem x _ hmark
  rintro rfl
  exact hxs hx

/-- An encoding puts the mark where the `feed` stands. -/
theorem Marks.flatMap_append_cons (h : Marks encode feed mark) (line rest : List α) :
    (line ++ feed :: rest).flatMap encode =
      line.flatMap encode ++ mark :: rest.flatMap encode := by
  rw [List.flatMap_append, List.flatMap_cons, h.spelled]
  rfl

/-- A sequence ends in a mark exactly if its encoding does. -/
theorem Marks.getLast?_flatMap_iff (h : Marks encode feed mark) (hencode : ∀ x, encode x ≠ [])
    (xs : List α) : (xs.flatMap encode).getLast? = some mark ↔ xs.getLast? = some feed := by
  rcases List.eq_nil_or_concat xs with rfl | ⟨front, x, rfl⟩
  · simp
  · -- no element is encoded by nothing, so the last one decides
    have hlast : (front.flatMap encode ++ encode x).getLast? = (encode x).getLast? := by
      rw [List.getLast?_append]
      cases hx : (encode x).getLast? with
      | none => exact absurd (List.getLast?_eq_none_iff.1 hx) (hencode x)
      | some y => rfl
    rw [List.concat_eq_append, List.flatMap_append, List.flatMap_singleton, hlast,
      List.getLast?_concat, Option.some.injEq]
    constructor
    · intro hlast
      by_cases hx : x = feed
      · exact hx
      · exact absurd (List.mem_of_getLast? hlast) (h.notMem x hx)
    · rintro rfl
      rw [h.spelled]
      rfl

/-- Taking the ending off an encoded part and encoding what is left of a part is
the same. -/
theorem Marks.isBody_flatMap {back : β} (hfeed : Marks encode feed mark)
    (hret : Marks encode ret back) (hencode : ∀ x, encode x ≠ []) {part body : List α}
    (h : IsBody feed ret part body) :
    IsBody mark back (part.flatMap encode) (body.flatMap encode) := by
  rcases h with rfl | ⟨rfl, h⟩ | ⟨rfl, h⟩
  · left
    simp [hfeed.spelled, hret.spelled]
  · right
    left
    rw [ne_eq, hret.getLast?_flatMap_iff hencode]
    exact ⟨hfeed.flatMap_append_cons body [], h⟩
  · right
    right
    rw [ne_eq, hfeed.getLast?_flatMap_iff hencode]
    exact ⟨rfl, h⟩

variable [BEq α] [LawfulBEq α] [BEq β] [LawfulBEq β]

/-! ## The two forms of a sequence -/

theorem takeWhile_bne_of_notMem (h : feed ∉ line) (rest : List α) :
    (line ++ rest).takeWhile (· != feed) = line ++ rest.takeWhile (· != feed) := by
  apply List.takeWhile_append_of_pos
  intro x hx
  rw [bne_iff_ne]
  rintro rfl
  exact h hx

theorem dropWhile_bne_of_notMem (h : feed ∉ line) (rest : List α) :
    (line ++ rest).dropWhile (· != feed) = rest.dropWhile (· != feed) := by
  apply List.dropWhile_append_of_pos
  intro x hx
  rw [bne_iff_ne]
  rintro rfl
  exact h hx

/-- What stands in front of the first `feed`. -/
theorem takeWhile_bne_append_cons (h : feed ∉ line) (rest : List α) :
    (line ++ feed :: rest).takeWhile (· != feed) = line := by
  rw [takeWhile_bne_of_notMem h, List.takeWhile_cons_of_neg (by simp), List.append_nil]

theorem firstPiece_append_of_notMem (h : feed ∉ line) (rest : List α) :
    firstPiece feed (line ++ rest) = line ++ firstPiece feed rest := by
  unfold firstPiece
  rw [takeWhile_bne_of_notMem h, dropWhile_bne_of_notMem h, List.append_assoc]

theorem afterFirst_append_of_notMem (h : feed ∉ line) (rest : List α) :
    afterFirst feed (line ++ rest) = afterFirst feed rest := by
  unfold afterFirst
  rw [dropWhile_bne_of_notMem h]

theorem firstPiece_append_cons (h : feed ∉ line) (rest : List α) :
    firstPiece feed (line ++ feed :: rest) = line ++ [feed] := by
  rw [firstPiece_append_of_notMem h]
  simp [firstPiece]

theorem afterFirst_append_cons (h : feed ∉ line) (rest : List α) :
    afterFirst feed (line ++ feed :: rest) = rest := by
  rw [afterFirst_append_of_notMem h]
  simp [afterFirst]

theorem firstPiece_of_notMem (h : feed ∉ xs) : firstPiece feed xs = xs := by
  have hxs := firstPiece_append_of_notMem h []
  rwa [List.append_nil, firstPiece_nil, List.append_nil] at hxs

theorem afterFirst_of_notMem (h : feed ∉ xs) : afterFirst feed xs = [] := by
  have hxs := afterFirst_append_of_notMem h []
  rwa [List.append_nil] at hxs

/-- A part is never empty. -/
theorem firstPiece_ne_nil (hxs : xs ≠ []) : firstPiece feed xs ≠ [] := by
  by_cases hfeed : feed ∈ xs
  · rcases List.eq_append_cons_of_mem hfeed with ⟨line, rest, rfl, hline⟩
    rw [firstPiece_append_cons hline]
    simp
  · rwa [firstPiece_of_notMem hfeed]

theorem firstPiece_append_of_mem (h : feed ∈ xs) (rest : List α) :
    firstPiece feed (xs ++ rest) = firstPiece feed xs := by
  rcases List.eq_append_cons_of_mem h with ⟨line, back, rfl, hline⟩
  rw [List.append_assoc, List.cons_append, firstPiece_append_cons hline,
    firstPiece_append_cons hline]

theorem afterFirst_append_of_mem (h : feed ∈ xs) (rest : List α) :
    afterFirst feed (xs ++ rest) = afterFirst feed xs ++ rest := by
  rcases List.eq_append_cons_of_mem h with ⟨line, back, rfl, hline⟩
  rw [List.append_assoc, List.cons_append, afterFirst_append_cons hline,
    afterFirst_append_cons hline]

/-- A line in front of a rest is the first part. -/
theorem pieces_append_cons (h : feed ∉ line) (rest : List α) :
    pieces feed (line ++ feed :: rest) = (line ++ [feed]) :: pieces feed rest := by
  have hfirst := firstPiece_append_cons h rest
  have hafter := afterFirst_append_cons h rest
  cases hxs : line ++ feed :: rest with
  | nil => simp at hxs
  | cons x xs =>
      rw [hxs] at hfirst hafter
      rw [pieces_cons, hfirst, hafter]

/-- A line alone is the only part. -/
theorem pieces_of_notMem (h : feed ∉ xs) (hxs : xs ≠ []) : pieces feed xs = [xs] := by
  cases xs with
  | nil => exact absurd rfl hxs
  | cons x xs => rw [pieces_cons, firstPiece_of_notMem h, afterFirst_of_notMem h, pieces_nil]

/-- Induction along the lines of a sequence. -/
theorem lines_induction {P : List α → Prop} (feed : α) (nil : P [])
    (last : ∀ xs, feed ∉ xs → xs ≠ [] → P xs)
    (line : ∀ line rest, feed ∉ line → P rest → P (line ++ feed :: rest)) (xs : List α) :
    P xs := by
  -- induction on the length: the rest behind the first line is shorter
  induction hn : xs.length using Nat.strongRecOn generalizing xs with
  | _ n ih =>
    by_cases hfeed : feed ∈ xs
    · rcases List.eq_append_cons_of_mem hfeed with ⟨front, rest, rfl, hfront⟩
      apply line front rest hfront
      apply ih rest.length _ rest rfl
      rw [← hn, List.length_append, List.length_cons]
      omega
    · by_cases hxs : xs = []
      · rw [hxs]
        exact nil
      · exact last xs hfeed hxs

/-! ## Parts -/

/-- The parts are what a cut has to be. -/
theorem isCut_pieces (feed : α) (xs : List α) : IsCut feed xs (pieces feed xs) := by
  -- induction along the lines
  induction xs using lines_induction feed with
  | nil =>
      rw [pieces_nil]
      constructor <;> simp
  | last xs h hxs =>
      rw [pieces_of_notMem h hxs]
      constructor
      · exact List.append_nil xs
      · intro hmem
        exact hxs (List.mem_singleton.1 hmem).symm
      · intro part hpart
        obtain rfl := List.mem_singleton.1 hpart
        intro hmem
        exact h (List.dropLast_subset _ hmem)
      · intro part hpart
        simp at hpart
  | line line rest h ih =>
      rw [pieces_append_cons h]
      constructor
      · rw [List.flatten_cons, ih.flatten_eq, List.append_assoc]
        rfl
      · intro hmem
        rcases List.mem_cons.1 hmem with hnil | hmem
        · simp at hnil
        · exact ih.nil_notMem hmem
      · intro part hpart
        rcases List.mem_cons.1 hpart with rfl | hpart
        · rw [List.dropLast_concat]
          exact h
        · exact ih.feed_notMem part hpart
      · intro part hpart
        cases hrest : pieces feed rest with
        | nil =>
            rw [hrest] at hpart
            simp at hpart
        | cons next more =>
            rw [hrest, List.dropLast_cons_cons] at hpart
            rcases List.mem_cons.1 hpart with rfl | hpart
            · exact List.getLast?_concat
            · rw [← hrest] at hpart
              exact ih.getLast?_eq part hpart

/-- There is one way only to cut a sequence. -/
theorem isCut_iff {parts : List (List α)} : IsCut feed xs parts ↔ parts = pieces feed xs := by
  constructor
  · intro h
    obtain rfl := h.flatten_eq
    -- induction on the parts: the first one is a line with its `feed`, or the last one of all
    induction parts with
    | nil => rw [List.flatten_nil, pieces_nil]
    | cons part parts ih =>
        have hfront := h.feed_notMem part List.mem_cons_self
        by_cases hlast : part.getLast? = some feed
        · rcases List.getLast?_eq_some_iff.1 hlast with ⟨line, rfl⟩
          rw [List.dropLast_concat] at hfront
          have hsplit : ((line ++ [feed]) :: parts).flatten = line ++ feed :: parts.flatten := by
            simp
          rw [hsplit, pieces_append_cons hfront, ← ih h.tail]
        · -- Only the last part may lack the line feed.
          have hparts : parts = [] := by
            cases parts with
            | nil => rfl
            | cons next more => exact absurd (h.getLast?_eq part List.mem_cons_self) hlast
          have hpart : part ≠ [] := by
            rintro rfl
            exact h.nil_notMem List.mem_cons_self
          have hfeed : feed ∉ part := by
            intro hmem
            rw [← List.dropLast_concat_getLast hpart] at hmem
            rcases List.mem_append.1 hmem with hmem | hmem
            · exact hfront hmem
            · apply hlast
              rw [List.getLast?_eq_some_getLast hpart, List.mem_singleton.1 hmem]
          rw [hparts, List.flatten_singleton, pieces_of_notMem hfeed hpart]
  · rintro rfl
    exact isCut_pieces feed xs

/-! ## Endings -/

theorem withoutEnding_concat_concat (feed ret : α) (body : List α) :
    withoutEnding feed ret (body ++ [ret, feed]) = body := by
  have hpart : body ++ [ret, feed] = (body ++ [ret]) ++ [feed] := by simp
  unfold withoutEnding
  rw [hpart, List.getLast?_concat, List.dropLast_concat]
  simp

theorem withoutEnding_concat {body : List α} (h : body.getLast? ≠ some ret) :
    withoutEnding feed ret (body ++ [feed]) = body := by
  unfold withoutEnding
  rw [List.getLast?_concat, List.dropLast_concat]
  simp [h]

theorem withoutEnding_of_getLast?_ne (h : xs.getLast? ≠ some feed) :
    withoutEnding feed ret xs = xs := by
  unfold withoutEnding
  simp [h]

/-- There is one way only to take the ending off a part. -/
theorem isBody_iff {part body : List α} :
    IsBody feed ret part body ↔ withoutEnding feed ret part = body := by
  constructor
  · rintro (rfl | ⟨rfl, h⟩ | ⟨rfl, h⟩)
    · exact withoutEnding_concat_concat feed ret body
    · exact withoutEnding_concat h
    · exact withoutEnding_of_getLast?_ne h
  · rintro rfl
    -- the cases of the computation: a `feed` at the end or none, and a `ret` before it or none
    by_cases hfeed : part.getLast? = some feed
    · rcases List.getLast?_eq_some_iff.1 hfeed with ⟨front, rfl⟩
      by_cases hret : front.getLast? = some ret
      · rcases List.getLast?_eq_some_iff.1 hret with ⟨body, rfl⟩
        rw [List.append_assoc]
        left
        rw [show body ++ ([ret] ++ [feed]) = body ++ [ret, feed] from rfl,
          withoutEnding_concat_concat]
      · right
        left
        rw [withoutEnding_concat hret]
        exact ⟨rfl, hret⟩
    · right
      right
      rw [withoutEnding_of_getLast?_ne hfeed]
      exact ⟨rfl, hfeed⟩

/-! ## Parts of an encoding -/

/-- The parts of an encoded sequence are its encoded parts. -/
theorem pieces_flatMap (h : Marks encode feed mark) (hencode : ∀ x, encode x ≠ [])
    (xs : List α) :
    pieces mark (xs.flatMap encode) = (pieces feed xs).map (List.flatMap encode) := by
  -- induction along the lines, which are those of the encoding
  induction xs using lines_induction feed with
  | nil => rw [List.flatMap_nil, pieces_nil, pieces_nil, List.map_nil]
  | last xs hxs hne =>
      have hbytes : xs.flatMap encode ≠ [] := by
        intro hnil
        cases xs with
        | nil => exact hne rfl
        | cons x xs => exact hencode x (List.append_eq_nil_iff.1 hnil).1
      rw [pieces_of_notMem (h.notMem_flatMap hxs) hbytes, pieces_of_notMem hxs hne]
      rfl
  | line line rest hline ih =>
      rw [h.flatMap_append_cons, pieces_append_cons (h.notMem_flatMap hline),
        pieces_append_cons hline, ih, List.map_cons, h.flatMap_append_cons]
      rfl

end TapeText.Text
