import TapeText.Proofs.Code.Shifts
import Mathlib.Logic.Function.Iterate

/-!
# TapeText.Proofs.Code.Repetition — the pass, made until nothing changes

One pass may leave a pair behind that only came together because another one
was dropped. Made again and again, the pass comes to an end, because every time
it changes a program the program gets shorter; what is left then has no pair in
it.

* `PairFree` — no two opposite moves stand side by side;
* `dropPairs_eq_self_iff` — the pass leaves exactly these programs alone;
* `dropPairsFully` — the pass made until nothing changes;
* `pairFree_iterate` — how many passes are enough.
-/

namespace TapeText.Code

/-- No two opposite moves stand side by side. -/
structure PairFree (code : List Char) : Prop where
  no_left_right : ¬ ['<', '>'] <:+: code
  no_right_left : ¬ ['>', '<'] <:+: code

variable {a b : Char} {code rest : List Char}

theorem pairFree_nil : PairFree [] := by
  constructor <;> simp

theorem pairFree_singleton (a : Char) : PairFree [a] := by
  constructor <;> simp [List.infix_cons_iff, List.cons_prefix_cons]

/-- A pair stands at the front of a program, or in what follows. -/
theorem pairFree_cons_cons :
    PairFree (a :: b :: rest) ↔ opposite a b = false ∧ PairFree (b :: rest) := by
  have hleft : ['<', '>'] <:+: a :: b :: rest ↔
      ('<' = a ∧ '>' = b) ∨ ['<', '>'] <:+: b :: rest := by
    rw [List.infix_cons_iff]
    simp [List.cons_prefix_cons]
  have hright : ['>', '<'] <:+: a :: b :: rest ↔
      ('>' = a ∧ '<' = b) ∨ ['>', '<'] <:+: b :: rest := by
    rw [List.infix_cons_iff]
    simp [List.cons_prefix_cons]
  have hopposite : opposite a b = false ↔ ¬ ('<' = a ∧ '>' = b) ∧ ¬ ('>' = a ∧ '<' = b) := by
    rw [← Bool.not_eq_true, opposite_eq_true, not_or]
    simp only [eq_comm]
  constructor
  · rintro ⟨h₁, h₂⟩
    rw [hleft, not_or] at h₁
    rw [hright, not_or] at h₂
    exact ⟨hopposite.2 ⟨h₁.1, h₂.1⟩, h₁.2, h₂.2⟩
  · rintro ⟨hab, h₁, h₂⟩
    rcases hopposite.1 hab with ⟨hab₁, hab₂⟩
    constructor
    · rw [hleft, not_or]
      exact ⟨hab₁, h₁⟩
    · rw [hright, not_or]
      exact ⟨hab₂, h₂⟩

/-- What matters in front of a program without pairs is only its first character. -/
theorem pairFree_cons :
    PairFree (a :: rest) ↔ (∀ b ∈ rest.head?, opposite a b = false) ∧ PairFree rest := by
  cases rest with
  | nil => simp [pairFree_nil, pairFree_singleton]
  | cons b rest => simp [pairFree_cons_cons]

/-! ## One pass -/

/-- The pass puts nothing in. -/
theorem length_dropPairs_le (code : List Char) : (dropPairs code).length ≤ code.length := by
  induction code using pass_induction with
  | nil => exact Nat.le_refl _
  | single a => exact Nat.le_refl _
  | drop a b rest hab ih =>
      rw [dropPairs_of_opposite hab]
      exact Nat.le_trans ih (Nat.le_add_right _ 2)
  | keep a b rest hab ih =>
      rw [dropPairs_of_not_opposite hab]
      exact Nat.succ_le_succ ih

/-- The pass leaves exactly the programs alone that have no pair in them. -/
theorem dropPairs_eq_self_iff : dropPairs code = code ↔ PairFree code := by
  induction code using pass_induction with
  | nil => exact ⟨fun _ => pairFree_nil, fun _ => rfl⟩
  | single a => exact ⟨fun _ => pairFree_singleton a, fun _ => rfl⟩
  | drop a b rest hab _ =>
      constructor
      · intro h
        -- what is left is too short
        have hle := length_dropPairs_le rest
        rw [dropPairs_of_opposite hab] at h
        rw [h, List.length_cons, List.length_cons] at hle
        omega
      · intro h
        -- a program without pairs does not begin with one
        have hfree := (pairFree_cons_cons.1 h).1
        rw [hab] at hfree
        exact absurd hfree.symm Bool.false_ne_true
  | keep a b rest hab ih =>
      rw [dropPairs_of_not_opposite hab, pairFree_cons_cons, ← ih]
      constructor
      · intro h
        exact ⟨hab, (List.cons.inj h).2⟩
      · intro h
        rw [h.2]

/-- A pass that changes a program drops two moves or more. -/
theorem length_dropPairs_add_two_le (h : dropPairs code ≠ code) :
    (dropPairs code).length + 2 ≤ code.length := by
  induction code using pass_induction with
  | nil => exact absurd rfl h
  | single a => exact absurd rfl h
  | drop a b rest hab _ =>
      have hle := length_dropPairs_le rest
      rw [dropPairs_of_opposite hab, List.length_cons, List.length_cons]
      omega
  | keep a b rest hab ih =>
      rw [dropPairs_of_not_opposite hab] at h ⊢
      -- the first character is kept, so the change is in what follows
      apply Nat.succ_le_succ
      apply ih
      intro hrest
      exact h (congrArg _ hrest)

/-- A pass that changes a program makes it shorter. -/
theorem length_dropPairs_lt (h : dropPairs code ≠ code) :
    (dropPairs code).length < code.length := by
  have hle := length_dropPairs_add_two_le h
  omega

/-! ## All passes -/

/-- The pass, made until it changes nothing. -/
def dropPairsFully (code : List Char) : List Char :=
  if dropPairs code = code then code else dropPairsFully (dropPairs code)
termination_by code.length
decreasing_by
  apply length_dropPairs_lt
  assumption

/-- Where the first pass leaves no pair, it is the only one. -/
theorem dropPairsFully_of_pairFree (h : PairFree (dropPairs code)) :
    dropPairsFully code = dropPairs code := by
  have hsecond := dropPairs_eq_self_iff.2 h
  rw [dropPairsFully]
  split
  · next hfirst => exact hfirst.symm
  · rw [dropPairsFully, if_pos hsecond]

/-- On a program without pairs any number of passes does nothing. -/
theorem iterate_dropPairs_of_pairFree (h : PairFree code) (count : Nat) :
    dropPairs^[count] code = code :=
  Function.iterate_fixed (dropPairs_eq_self_iff.2 h) count

/-- It takes two characters to make a pair. -/
theorem pairFree_of_length_le (h : code.length ≤ 1) : PairFree code := by
  rcases code with _ | ⟨a, _ | ⟨b, rest⟩⟩
  · exact pairFree_nil
  · exact pairFree_singleton a
  · rw [List.length_cons, List.length_cons] at h
    omega

/-- Every pass but the last one drops two moves or more, so half as many passes as
there are characters leave no pair. -/
theorem pairFree_iterate {count : Nat} (h : code.length / 2 ≤ count) :
    PairFree (dropPairs^[count] code) := by
  induction count generalizing code with
  | zero =>
      have hshort : code.length ≤ 1 := by omega
      exact pairFree_of_length_le hshort
  | succ count ih =>
      rw [Function.iterate_succ_apply]
      by_cases hfirst : dropPairs code = code
      · have hfree := dropPairs_eq_self_iff.1 hfirst
        rwa [hfirst, iterate_dropPairs_of_pairFree hfree]
      · -- the program got shorter by two, for one pass fewer to come
        have hlength := length_dropPairs_add_two_le hfirst
        exact ih (by omega)

end TapeText.Code
