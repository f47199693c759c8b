import TapeText.Loop.Plan
import Mathlib.Data.Prod.Lex

/-!
# TapeText.Proofs.Loop.Ranking — which of several plans comes first

Plans are compared by two numbers, one after the other, and a scan along a list
keeps a plan that no other one precedes. Where two plans compare equal the scan
has to keep one of them; here it may choose freely, so that what is shown of a
scan holds whichever way it goes along the list and whoever wins a tie.

* `key` — the two numbers, in the order in which they count;
* `scan?` — the scan, with a rule for ties;
* `scan?_mem`, `scan?_key_le` — it ends with a plan of the list whose key is the
  least one.
-/

namespace TapeText.Loop.Plan

variable {tie : Plan → Plan → Bool} {p q : Plan} {ps : List Plan}

/-! ## Keys -/

/-- What counts when plans are compared: the spread, and between equal spreads
how far the correction goes. -/
def key (p : Plan) : ℕ ×ₗ ℕ := toLex (p.spread, p.correction.natAbs)

/-- The order of the keys, written out. -/
theorem key_le_iff : p.key ≤ q.key ↔
    p.spread < q.spread ∨ p.spread = q.spread ∧ p.correction.natAbs ≤ q.correction.natAbs :=
  Prod.Lex.toLex_le_toLex

theorem precedes_iff : p.precedes q = true ↔ p.key < q.key := by
  unfold precedes key
  rw [Prod.Lex.toLex_lt_toLex]
  simp

/-! ## Scans -/

/-- A scan for a plan with the least key. Of two plans with equal keys it keeps
the later one if `tie` says so, and otherwise the earlier one. -/
def scan? (tie : Plan → Plan → Bool) : List Plan → Option Plan
  | [] => none
  | p :: rest =>
    match scan? tie rest with
    | none => some p
    | some q => if q.precedes p || (!p.precedes q && tie p q) then some q else some p

/-- The search lets the earlier plan win each tie. -/
theorem first?_eq_scan? (ps : List Plan) : first? ps = scan? (fun _ _ => false) ps := by
  -- induction on the list, as both go along it from behind
  induction ps with
  | nil => rfl
  | cons p rest ih =>
      rw [first?, scan?, ih]
      cases scan? (fun _ _ => false) rest with
      | none => rfl
      | some q => simp

/-- Only an empty list has nothing to keep. -/
theorem scan?_eq_none (h : scan? tie ps = none) : ps = [] := by
  cases ps with
  | nil => rfl
  | cons p rest =>
      rw [scan?] at h
      split at h
      · simp at h
      · split at h <;> simp at h

/-- What is left of a scan when one more plan stands in front. -/
theorem scan?_cons {r : Plan} (h : scan? tie (p :: ps) = some r) :
    (scan? tie ps = none ∧ r = p) ∨
      ∃ q, scan? tie ps = some q ∧ ((r = q ∧ q.key ≤ p.key) ∨ (r = p ∧ p.key ≤ q.key)) := by
  rw [scan?] at h
  -- the plan in front is compared with what the rest has kept
  cases hrest : scan? tie ps with
  | none =>
      rw [hrest] at h
      exact .inl ⟨rfl, (Option.some.inj h).symm⟩
  | some q =>
      rw [hrest] at h
      dsimp only at h
      refine .inr ⟨q, rfl, ?_⟩
      split at h
      · next hkeep =>
        obtain rfl := Option.some.inj h
        simp only [Bool.or_eq_true, Bool.and_eq_true, Bool.not_eq_true'] at hkeep
        refine .inl ⟨rfl, ?_⟩
        rcases hkeep with hlt | ⟨hnot, -⟩
        · exact le_of_lt (precedes_iff.1 hlt)
        · rw [← Bool.not_eq_true, precedes_iff] at hnot
          exact le_of_not_gt hnot
      · next hdrop =>
        obtain rfl := Option.some.inj h
        simp only [Bool.or_eq_true, not_or] at hdrop
        rw [precedes_iff] at hdrop
        exact .inr ⟨rfl, le_of_not_gt hdrop.1⟩

theorem scan?_mem (h : scan? tie ps = some p) : p ∈ ps := by
  -- the plan that is kept is the one in front, or was kept by the rest
  induction ps generalizing p with
  | nil => simp [scan?] at h
  | cons head rest ih =>
      rcases scan?_cons h with ⟨-, rfl⟩ | ⟨q, hq, ⟨rfl, -⟩ | ⟨rfl, -⟩⟩
      · exact List.mem_cons_self
      · exact List.mem_cons_of_mem head (ih hq)
      · exact List.mem_cons_self

/-- No plan of the list has a smaller key than the one that the scan keeps. -/
theorem scan?_key_le (h : scan? tie ps = some p) (hq : q ∈ ps) : p.key ≤ q.key := by
  -- induction on the list, with the plan that is kept free: the rest may keep another one
  induction ps generalizing p with
  | nil => simp at hq
  | cons head rest ih =>
      rcases List.mem_cons.1 hq with rfl | hrest
      · rcases scan?_cons h with ⟨-, rfl⟩ | ⟨r, -, ⟨rfl, hle⟩ | ⟨rfl, -⟩⟩
        · exact le_refl _
        · exact hle
        · exact le_refl _
      · rcases scan?_cons h with ⟨hnone, -⟩ | ⟨r, hr, ⟨rfl, -⟩ | ⟨rfl, hle⟩⟩
        · rw [scan?_eq_none hnone] at hrest
          simp at hrest
        · exact ih hr hrest
        · exact le_trans hle (ih hr hrest)

end TapeText.Loop.Plan
