import TapeText.Code.Shifts
import TapeText.Proofs.Machine.Nesting

/-!
# TapeText.Proofs.Code.Shifts — where the pass can be cut

The pass that drops opposite moves carries one bit of memory from character to
character: whether the last one is still free to be dropped together with the
next. `pending` is that memory, and a program may be cut into two that are
passed on their own wherever it does not reach across the cut.

* `pass_induction` — induction along the pass;
* `dropPairs_append`, `dropPairs_append_of_seam` — the pass of a program cut in two;
* `balanced_dropPairs` — the pass keeps the nesting of the brackets.
-/

namespace TapeText.Code

open Brackets

variable {a b c : Char} {code front back rest : List Char}

/-- There are two pairs. -/
theorem opposite_eq_true : opposite a b = true ↔ (a = '<' ∧ b = '>') ∨ (a = '>' ∧ b = '<') := by
  unfold opposite
  split <;> simp_all

/-- A character that does not move the pointer. -/
def IsFixed (c : Char) : Prop := c ≠ '<' ∧ c ≠ '>'

instance (c : Char) : Decidable (IsFixed c) := inferInstanceAs (Decidable (_ ∧ _))

theorem IsFixed.opposite_left (h : IsFixed a) (b : Char) : opposite a b = false := by
  rw [← Bool.not_eq_true, opposite_eq_true]
  rintro (⟨ha, -⟩ | ⟨ha, -⟩)
  · exact h.1 ha
  · exact h.2 ha

theorem IsFixed.opposite_right (h : IsFixed b) (a : Char) : opposite a b = false := by
  rw [← Bool.not_eq_true, opposite_eq_true]
  rintro (⟨-, hb⟩ | ⟨-, hb⟩)
  · exact h.2 hb
  · exact h.1 hb

/-- Induction along the pass: it drops a pair and goes on behind it, or keeps
one character. -/
theorem pass_induction {P : List Char → Prop} (nil : P []) (single : ∀ a, P [a])
    (drop : ∀ a b rest, opposite a b = true → P rest → P (a :: b :: rest))
    (keep : ∀ a b rest, opposite a b = false → P (b :: rest) → P (a :: b :: rest)) :
    ∀ code, P code
  | [] => nil
  | [a] => single a
  | a :: b :: rest => by
      cases h : opposite a b with
      | true => exact drop a b rest h (pass_induction nil single drop keep rest)
      | false => exact keep a b rest h (pass_induction nil single drop keep (b :: rest))

/-! ## Cutting a program -/

/-- The last character of a program, if the pass keeps it and the character
behind the program may still cancel it. -/
def pending : List Char → Option Char
  | a :: b :: rest => if opposite a b then pending rest else pending (b :: rest)
  | [a] => some a
  | [] => none

/-- The pass takes no pair across the cut. -/
def Settled (front back : List Char) : Prop :=
  ∀ a ∈ pending front, ∀ b ∈ back.head?, opposite a b = false

theorem pending_of_opposite (h : opposite a b = true) (rest : List Char) :
    pending (a :: b :: rest) = pending rest := by
  rw [pending, if_pos h]

theorem pending_of_not_opposite (h : opposite a b = false) (rest : List Char) :
    pending (a :: b :: rest) = pending (b :: rest) := by
  rw [pending, if_neg (by simp [h])]

/-- Nothing is pending in front of a program. -/
theorem settled_nil_left (back : List Char) : Settled [] back := by
  intro a ha
  simp [pending] at ha

/-- Cut where it takes no pair apart, a program is passed part by part. -/
theorem dropPairs_append (h : Settled front back) :
    dropPairs (front ++ back) = dropPairs front ++ dropPairs back := by
  induction front using pass_induction with
  | nil => rfl
  | single a =>
      cases back with
      | nil => rfl
      | cons b back =>
          -- the cut is right behind `a`
          have hab : opposite a b = false := h a rfl b rfl
          exact dropPairs_of_not_opposite hab back
  | drop a b front hab ih =>
      unfold Settled at h
      -- what is pending in front of the cut is pending behind the pair
      rw [pending_of_opposite hab] at h
      rw [dropPairs_of_opposite hab, ← ih h]
      exact dropPairs_of_opposite hab (front ++ back)
  | keep a b front hab ih =>
      unfold Settled at h
      rw [pending_of_not_opposite hab] at h
      have hcons := dropPairs_of_not_opposite hab (front ++ back)
      rw [dropPairs_of_not_opposite hab, List.cons_append, List.cons_append, hcons]
      exact congrArg _ (ih h)

/-- What the pass may still drop is the last character itself. -/
theorem mem_getLast?_of_mem_pending (h : a ∈ pending code) : a ∈ code.getLast? := by
  induction code using pass_induction with
  | nil => exact h
  | single c => exact h
  | drop c d rest hcd ih =>
      -- behind a pair something has to follow, and that has the last character
      rw [pending_of_opposite hcd] at h
      rw [List.getLast?_cons_cons, List.getLast?_cons, ih h]
      rfl
  | keep c d rest hcd ih =>
      rw [pending_of_not_opposite hcd] at h
      rw [List.getLast?_cons_cons]
      exact ih h

/-- Two programs are passed part by part if one of them is empty or no pair stands where
they meet, whatever the pass makes of the character in front of the seam. -/
theorem dropPairs_append_of_seam
    (h : ∀ a ∈ front.getLast?, ∀ b ∈ back.head?, ¬ (a = '<' ∧ b = '>') ∧ ¬ (a = '>' ∧ b = '<')) :
    dropPairs (front ++ back) = dropPairs front ++ dropPairs back := by
  apply dropPairs_append
  intro a ha b hb
  rcases h a (mem_getLast?_of_mem_pending ha) b hb with ⟨hright, hleft⟩
  rw [← Bool.not_eq_true, opposite_eq_true]
  rintro (hpair | hpair)
  · exact hright hpair
  · exact hleft hpair

/-- The character in front of the seam is the odd one out of three moves, and pairs stand
on both sides of it. -/
theorem dropPairs_append_of_seam_odd :
    (∀ a ∈ "><>".toList.getLast?, ∀ b ∈ ">+<>".toList.head?,
      ¬ (a = '<' ∧ b = '>') ∧ ¬ (a = '>' ∧ b = '<')) ∧
    dropPairs ("><>".toList ++ ">+<>".toList) =
      dropPairs "><>".toList ++ dropPairs ">+<>".toList := by
  have hseam : ∀ a ∈ "><>".toList.getLast?, ∀ b ∈ ">+<>".toList.head?,
      ¬ (a = '<' ∧ b = '>') ∧ ¬ (a = '>' ∧ b = '<') := by
    intro a ha b hb
    obtain rfl : '>' = a := Option.some.inj ha
    obtain rfl : '>' = b := Option.some.inj hb
    decide
  exact ⟨hseam, dropPairs_append_of_seam hseam⟩

/-- Behind a cut that takes no pair apart the pass remembers nothing from before. -/
theorem pending_append (h : Settled front back) (hback : back ≠ []) :
    pending (front ++ back) = pending back := by
  induction front using pass_induction with
  | nil => rfl
  | single a =>
      cases back with
      | nil => exact absurd rfl hback
      | cons b back => exact pending_of_not_opposite (h a rfl b rfl) back
  | drop a b front hab ih =>
      unfold Settled at h
      rw [pending_of_opposite hab] at h
      rw [← ih h]
      exact pending_of_opposite hab (front ++ back)
  | keep a b front hab ih =>
      unfold Settled at h
      rw [pending_of_not_opposite hab] at h
      rw [← ih h]
      exact pending_of_not_opposite hab (front ++ back)

/-- Behind a dropped pair the pass starts afresh. -/
theorem settled_of_opposite (h : Settled front (a :: b :: rest)) (hab : opposite a b = true)
    (back : List Char) : Settled (front ++ [a, b]) back := by
  have hcut : Settled front [a, b] := h
  intro c hc
  rw [pending_append hcut (List.cons_ne_nil _ _), pending_of_opposite hab] at hc
  simp [pending] at hc

/-- A pair at the end is dropped. -/
theorem dropPairs_concat_pair (h : Settled front (a :: b :: rest)) (hab : opposite a b = true) :
    dropPairs (front ++ [a, b]) = dropPairs front := by
  have hcut : Settled front [a, b] := h
  rw [dropPairs_append hcut, dropPairs_of_opposite hab, dropPairs_nil, List.append_nil]

/-- Behind a kept character only that character can still be dropped. -/
theorem settled_concat (h : Settled front (a :: rest))
    (hab : ∀ b ∈ back.head?, opposite a b = false) : Settled (front ++ [a]) back := by
  have hcut : Settled front [a] := h
  intro c hc b hb
  rw [pending_append hcut (List.cons_ne_nil _ _)] at hc
  obtain rfl : a = c := Option.some.inj hc
  exact hab b hb

/-- A character at the end is kept, if nothing before it is pending. -/
theorem dropPairs_concat (h : Settled front (a :: rest)) :
    dropPairs (front ++ [a]) = dropPairs front ++ [a] := by
  have hcut : Settled front [a] := h
  rw [dropPairs_append hcut, dropPairs_singleton]

/-! ## Characters that do not move the pointer -/

/-- No pair reaches across a character that does not move the pointer, neither from the
front nor from behind. -/
theorem settled_of_fixed (hc : IsFixed c) (front back : List Char) :
    Settled front (c :: back) := by
  intro a _ b hb
  obtain rfl : c = b := Option.some.inj hb
  exact hc.opposite_right a

theorem settled_concat_of_fixed (hc : IsFixed c) (front back : List Char) :
    Settled (front ++ [c]) back := by
  apply settled_concat (settled_of_fixed hc front [])
  intro b _
  exact hc.opposite_left b

/-- The pass keeps such a character and starts afresh. -/
theorem dropPairs_cons_of_fixed (hc : IsFixed c) (back : List Char) :
    dropPairs (c :: back) = c :: dropPairs back := by
  have hcut : Settled [c] back := settled_concat_of_fixed hc [] back
  exact dropPairs_append hcut

/-- A character that stays where it is divides the pass. -/
theorem dropPairs_append_cons (hc : IsFixed c) (front back : List Char) :
    dropPairs (front ++ c :: back) = dropPairs front ++ c :: dropPairs back := by
  rw [dropPairs_append (settled_of_fixed hc front back), dropPairs_cons_of_fixed hc]

/-! ## Brackets -/

theorem isFixed_open : IsFixed '[' := by decide

theorem isFixed_close : IsFixed ']' := by decide

/-- The nesting depth goes up and down at the same brackets. -/
theorem closes_dropPairs (depth : Nat) (code : List Char) :
    closes depth (dropPairs code) = closes depth code := by
  induction code using pass_induction generalizing depth with
  | nil => rfl
  | single a => rfl
  | drop a b rest hab ih =>
      rw [dropPairs_of_opposite hab, ih]
      -- neither half of a pair is a bracket
      rcases opposite_eq_true.1 hab with ⟨rfl, rfl⟩ | ⟨rfl, rfl⟩ <;> rfl
  | keep a b rest hab ih =>
      rw [dropPairs_of_not_opposite hab]
      simp only [closes, ih]

/-- The pass keeps the nesting of the brackets. -/
theorem balanced_dropPairs : Balanced (dropPairs code) ↔ Balanced code := by
  rw [balanced_iff_closes, balanced_iff_closes, closes_dropPairs]

end TapeText.Code
