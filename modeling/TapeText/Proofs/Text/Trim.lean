import TapeText.Text.Blank
import TapeText.Proofs.Text.FirstLine
import Mathlib.Data.List.TakeWhile

/-!
# TapeText.Proofs.Text.Trim — texts up to the blanks at their ends

Trimming takes the blanks off the two ends of a text and stops at the first
character that is none. Line endings are made of blanks, so a line is the same
trimmed whether its ending was taken off or not, and however it was ended.

* `exists_trim` — a text is its trimmed form between blanks;
* `trim_append_left`, `trim_append_right`, `trim_trim` — blanks at the ends do not
  matter;
* `trimmedLines` — the lines of a text, trimmed, and what becomes of them where texts
  are put together;
* `AddsLine` — a text with one more line in it.
-/

namespace TapeText.Text

variable {c : Char} {cs front back : List Char}

def IsBlanks (cs : List Char) : Prop := ∀ c ∈ cs, isBlank c = true

theorem isBlanks_nil : IsBlanks [] := List.forall_mem_nil _

theorem isBlanks_cons (hc : isBlank c = true) (h : IsBlanks cs) : IsBlanks (c :: cs) :=
  List.forall_mem_cons.2 ⟨hc, h⟩

theorem IsBlanks.notMem (h : IsBlanks cs) (hc : isBlank c = false) : c ∉ cs := by
  intro hmem
  rw [h c hmem] at hc
  exact absurd hc (by decide)

theorem isBlanks_takeWhile (cs : List Char) : IsBlanks (cs.takeWhile isBlank) := by
  intro c hc
  exact List.mem_takeWhile_imp hc

/-- Blanks in front do not matter. -/
theorem trim_append_left (h : IsBlanks front) (cs : List Char) : trim (front ++ cs) = trim cs := by
  unfold trim
  rw [List.dropWhile_append_of_pos h]

/-- Blanks behind do not matter. -/
theorem trim_append_right (h : IsBlanks back) (cs : List Char) : trim (cs ++ back) = trim cs := by
  have hreverse : IsBlanks back.reverse := by
    intro c hc
    exact h c (List.mem_reverse.1 hc)
  -- either nothing is left before the blanks, and all of it is blank, or they are at the end
  unfold trim
  rw [List.dropWhile_append]
  split
  · next hempty =>
    rw [List.isEmpty_iff] at hempty
    rw [hempty, List.dropWhile_eq_nil_iff.2 h]
  · rw [List.reverse_append, List.dropWhile_append_of_pos hreverse]

/-- A text is its trimmed form between blanks. -/
theorem exists_trim (cs : List Char) :
    ∃ front back, IsBlanks front ∧ IsBlanks back ∧ cs = front ++ trim cs ++ back := by
  refine ⟨cs.takeWhile isBlank, ((cs.dropWhile isBlank).reverse.takeWhile isBlank).reverse,
    isBlanks_takeWhile cs, ?_, ?_⟩
  · intro c hc
    exact isBlanks_takeWhile _ c (List.mem_reverse.1 hc)
  · unfold trim
    rw [List.append_assoc, ← List.reverse_append, List.takeWhile_append_dropWhile,
      List.reverse_reverse, List.takeWhile_append_dropWhile]

theorem mem_of_mem_trim (h : c ∈ trim cs) : c ∈ cs := by
  rcases exists_trim cs with ⟨front, back, -, -, hcs⟩
  rw [hcs]
  exact List.mem_append_left back (List.mem_append_right front h)

/-- What is no blank is not trimmed off. -/
theorem mem_trim (h : c ∈ cs) (hc : isBlank c = false) : c ∈ trim cs := by
  rcases exists_trim cs with ⟨front, back, hfront, hback, hcs⟩
  rw [hcs, List.mem_append, List.mem_append] at h
  rcases h with (h | h) | h
  · exact absurd h (hfront.notMem hc)
  · exact h
  · exact absurd h (hback.notMem hc)

/-- There is nothing to trim twice. -/
theorem trim_trim (cs : List Char) : trim (trim cs) = trim cs := by
  rcases exists_trim cs with ⟨front, back, hfront, hback, hcs⟩
  rw [← trim_append_left hfront (trim cs), ← trim_append_right hback (front ++ trim cs), ← hcs]

/-- Without blanks there is nothing to trim. -/
theorem trim_eq_self (h : ∀ c ∈ cs, isBlank c = false) : trim cs = cs := by
  -- blanks that are in the text would be blanks without being any
  have hnil : ∀ blanks, IsBlanks blanks → (∀ c ∈ blanks, c ∈ cs) → blanks = [] := by
    intro blanks hblanks hmem
    apply List.eq_nil_iff_forall_not_mem.2
    intro c hc
    exact hblanks.notMem (h c (hmem c hc)) hc
  rcases exists_trim cs with ⟨front, back, hfront, hback, hcs⟩
  have hnoFront : front = [] := by
    apply hnil front hfront
    intro c hc
    rw [hcs]
    exact List.mem_append_left back (List.mem_append_left _ hc)
  have hnoBack : back = [] := by
    apply hnil back hback
    intro c hc
    rw [hcs]
    exact List.mem_append_right _ hc
  rw [hnoFront, hnoBack, List.nil_append, List.append_nil] at hcs
  exact hcs.symm

/-- A character at the front that is no blank stays there. -/
theorem head?_trim (h : cs.head? = some c) (hc : isBlank c = false) : (trim cs).head? = some c := by
  cases cs with
  | nil => simp at h
  | cons d rest =>
      obtain rfl := Option.some.inj h
      unfold trim
      rw [List.dropWhile_cons_of_neg (by simp [hc]), List.reverse_cons, List.dropWhile_append]
      split
      · simp [hc]
      · rw [List.reverse_append]
        rfl

/-! ## Lines -/

/-- What ends a line of text. -/
def IsEnding (ending : List Char) : Prop := ending = ['\n'] ∨ ending = ['\r', '\n']

/-- There is no line in the text whose ending is missing. -/
def IsComplete (text : List Char) : Prop := text = [] ∨ text.getLast? = some '\n'

instance (text : List Char) : Decidable (IsComplete text) := inferInstanceAs (Decidable (_ ∨ _))

def trimmedLines (text : List Char) : List (List Char) := (lines text).map trim

variable {line ending text above below : List Char}

theorem IsEnding.isBlanks (h : IsEnding ending) : IsBlanks ending := by
  have hfeed : IsBlanks ['\n'] := isBlanks_cons (by decide) isBlanks_nil
  rcases h with rfl | rfl
  · exact hfeed
  · exact isBlanks_cons (by decide) hfeed

/-- The ending of a part is made of blanks. -/
theorem trim_withoutEnding (part : List Char) :
    trim (withoutEnding '\n' '\r' part) = trim part := by
  have hbody := isBody_iff.2 (Eq.refl (withoutEnding '\n' '\r' part))
  generalize withoutEnding '\n' '\r' part = body at hbody
  rcases hbody with rfl | ⟨rfl, -⟩ | ⟨rfl, -⟩
  · exact (trim_append_right (IsEnding.isBlanks (.inr rfl)) body).symm
  · exact (trim_append_right (IsEnding.isBlanks (.inl rfl)) body).symm
  · rfl

/-- It does not matter whether endings are taken off before trimming. -/
theorem trimmedLines_eq (text : List Char) : trimmedLines text = (pieces '\n' text).map trim := by
  unfold trimmedLines lines
  rw [List.map_map]
  exact List.map_congr_left fun part _ => trim_withoutEnding part

theorem trimmedLines_nil : trimmedLines [] = [] := by
  rw [trimmedLines_eq, pieces_nil, List.map_nil]

/-- The lines of two texts, if the first one is complete. -/
theorem trimmedLines_append (h : IsComplete above) (below : List Char) :
    trimmedLines (above ++ below) = trimmedLines above ++ trimmedLines below := by
  rw [trimmedLines_eq, pieces_append h, List.map_append, ← trimmedLines_eq, ← trimmedLines_eq]

/-- A line with its ending in front of a text. -/
theorem trimmedLines_line (hline : '\n' ∉ line) (h : IsEnding ending) (below : List Char) :
    trimmedLines (line ++ ending ++ below) = trim line :: trimmedLines below := by
  have hpieces : pieces '\n' (line ++ ending ++ below) = (line ++ ending) :: pieces '\n' below := by
    rcases h with rfl | rfl
    · rw [List.append_assoc]
      exact pieces_append_cons hline below
    · have hreturn : '\n' ∉ line ++ ['\r'] := by simp [hline]
      have hsplit := pieces_append_cons hreturn below
      rw [List.append_assoc, List.append_assoc] at hsplit
      rw [List.append_assoc]
      exact hsplit
  rw [trimmedLines_eq, hpieces, List.map_cons, trim_append_right h.isBlanks, ← trimmedLines_eq]

/-- A line without an ending. -/
theorem trimmedLines_singleton (hline : '\n' ∉ line) (hne : line ≠ []) :
    trimmedLines line = [trim line] := by
  rw [trimmedLines_eq, pieces_of_notMem hline hne, List.map_singleton]

/-- Behind a text whose last line lacks its ending, the ending, and then more. -/
theorem trimmedLines_complete (habove : ¬ IsComplete above) (h : IsEnding ending)
    (below : List Char) :
    trimmedLines (above ++ ending ++ below) = trimmedLines above ++ trimmedLines below := by
  -- along the lines above: only the last one is changed, and it is changed by blanks
  induction above using lines_induction '\n' with
  | nil => exact absurd (.inl rfl) habove
  | last last hlast hne =>
      rw [trimmedLines_line hlast h, trimmedLines_singleton hlast hne]
      rfl
  | line line rest hline ih =>
      have hrest : ¬ IsComplete rest := by
        rintro (rfl | hend)
        · exact habove (.inr List.getLast?_concat)
        · apply habove
          rw [IsComplete, List.getLast?_append, List.getLast?_cons, hend]
          exact .inr rfl
      have hfront (more : List Char) :
          trimmedLines (line ++ '\n' :: more) = trim line :: trimmedLines more := by
        rw [← trimmedLines_line hline (.inl rfl) more, List.append_assoc]
        rfl
      rw [List.append_assoc, List.append_assoc, List.cons_append, hfront, hfront,
        ← List.append_assoc, ih hrest, List.cons_append]

/-! ## One more line -/

/-- The text `longer` has one more line than `above` and `below` together: it stands
between them. -/
inductive AddsLine (line above below longer : List Char) : Prop where
  /-- At the beginning, or behind a line with its ending. -/
  | between (ending : List Char) (habove : IsComplete above) (hending : IsEnding ending)
      (heq : longer = above ++ (line ++ ending ++ below))
  /-- As the last line, without an ending. -/
  | last (habove : IsComplete above) (hbelow : below = []) (heq : longer = above ++ line)
  /-- Behind a last line that lacked its ending. -/
  | behind (ending trail : List Char) (habove : ¬ IsComplete above) (hending : IsEnding ending)
      (hbelow : below = []) (htrail : trail = [] ∨ IsEnding trail)
      (heq : longer = above ++ ending ++ (line ++ trail))

/-- The line is between the lines above and those below, and these are the same without
it. -/
theorem AddsLine.trimmedLines_eq {longer : List Char} (h : AddsLine line above below longer)
    (hline : '\n' ∉ line) (hne : line ≠ []) :
    trimmedLines longer = trimmedLines above ++ trim line :: trimmedLines below ∧
    trimmedLines (above ++ below) = trimmedLines above ++ trimmedLines below := by
  -- one case for each place where the line may stand
  cases h with
  | between ending habove hending heq =>
      rw [heq, trimmedLines_append habove, trimmedLines_append habove,
        trimmedLines_line hline hending]
      exact ⟨rfl, rfl⟩
  | last habove hbelow heq =>
      rw [heq, hbelow, trimmedLines_append habove, trimmedLines_append habove,
        trimmedLines_singleton hline hne, trimmedLines_nil]
      exact ⟨rfl, rfl⟩
  | behind ending trail habove hending hbelow htrail heq =>
      have hlast : trimmedLines (line ++ trail) = [trim line] := by
        rcases htrail with rfl | htrail
        · rw [List.append_nil, trimmedLines_singleton hline hne]
        · have hended := trimmedLines_line hline htrail []
          rwa [List.append_nil, trimmedLines_nil] at hended
      rw [heq, hbelow, trimmedLines_complete habove hending, hlast, List.append_nil,
        trimmedLines_nil, List.append_nil]
      exact ⟨rfl, rfl⟩

end TapeText.Text
