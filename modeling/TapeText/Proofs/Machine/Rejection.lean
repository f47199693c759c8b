import TapeText.Proofs.Code.Pieces
import TapeText.Proofs.Machine.Tape
import Mathlib.Order.Bounds.Basic

/-!
# TapeText.Proofs.Machine.Rejection — which programs are rejected, and where

The scan for partners stops at the first closing bracket with nothing to close, or,
behind the last character, at the innermost bracket that is still open. Both are
described here without the scan: a loop is an opening and a closing bracket with
balanced code between them, and a bracket has a partner if it stands at one end of a
loop.

* `LoopAt` — the two ends of a loop;
* `Unopened`, `Unclosed`, `RejectedAt` — brackets without a partner, and the one that
  is reported;
* `Opening` — a program that has been read in part, by the brackets that are open;
* `rejectedAt_of_scan`, `partners_eq_error_iff` — the scan reports that bracket;
* `partner_of_open`, `partner_of_close` — otherwise each bracket has one partner, and
  the table holds it;
* `rejection_of_run` — what this says about runs.
-/

namespace TapeText

namespace Brackets

/-- The brackets at `i` and `k` stand at the two ends of a loop. -/
def LoopAt (code : List Char) (i k : Nat) : Prop :=
  ∃ before body back, code = before ++ '[' :: (body ++ ']' :: back) ∧ Balanced body ∧
    i = before.length ∧ k = before.length + 1 + body.length

/-- A closing bracket that closes no loop. -/
def Unopened (code : List Char) (k : Nat) : Prop :=
  code[k]? = some ']' ∧ ∀ i, ¬ LoopAt code i k

/-- An opening bracket that opens no loop. -/
def Unclosed (code : List Char) (i : Nat) : Prop :=
  code[i]? = some '[' ∧ ∀ k, ¬ LoopAt code i k

/-- The first closing bracket without a partner, or, if each of them has one, the last
opening bracket without a partner. -/
def RejectedAt (code : List Char) (ip : Nat) : Prop :=
  IsLeast {k | Unopened code k} ip ∨
    (∀ k, ¬ Unopened code k) ∧ IsGreatest {i | Unclosed code i} ip

variable {code front before body back rest : List Char} {opens : List Nat} {i k ip : Nat}

/-! ## Loops -/

/-- A loop stays where it is when there is more code behind. -/
theorem LoopAt.append_right (h : LoopAt code i k) (back : List Char) :
    LoopAt (code ++ back) i k := by
  rcases h with ⟨before, body, rest, rfl, hbody, rfl, rfl⟩
  exact ⟨before, body, rest ++ back, by simp, hbody, rfl, rfl⟩

/-- Behind a character in the middle the positions are those of the back. -/
theorem getElem?_behind (front body : List Char) (c : Char) (d : Nat) :
    (front ++ c :: body)[front.length + d + 1]? = body[d]? := by
  rw [Nat.add_assoc, List.getElem?_append_right (Nat.le_add_right _ _), Nat.add_sub_cancel_left,
    List.getElem?_cons_succ]

/-- With more code in front a loop has moved by the length of that. -/
theorem LoopAt.append_left (h : LoopAt code i k) (front : List Char) :
    LoopAt (front ++ code) (front.length + i) (front.length + k) := by
  rcases h with ⟨before, body, rest, rfl, hbody, rfl, rfl⟩
  refine ⟨front ++ before, body, rest, by simp, hbody, List.length_append.symm, ?_⟩
  rw [List.length_append]
  omega

/-- Behind an open bracket a loop has moved by what is in front of it. -/
theorem LoopAt.behind_open (h : LoopAt body i k) (front : List Char) :
    LoopAt (front ++ '[' :: body) (front.length + i + 1) (front.length + k + 1) := by
  have hmoved := h.append_left (front ++ ['['])
  have hlength : (front ++ ['[']).length = front.length + 1 := by simp
  rw [hlength, List.append_assoc, Nat.add_right_comm, Nat.add_right_comm _ 1 k] at hmoved
  exact hmoved

/-- Both ends of a loop are in the program. -/
theorem LoopAt.lt_length (h : LoopAt code i k) : i < code.length ∧ k < code.length := by
  rcases h with ⟨before, body, back, rfl, -, rfl, rfl⟩
  simp only [List.length_append, List.length_cons]
  omega

/-- A program around one of its characters. -/
theorem exists_split {c : Char} (h : code[i]? = some c) :
    ∃ before back, code = before ++ c :: back ∧ i = before.length := by
  rcases List.getElem?_eq_some_iff.1 h with ⟨hlt, hget⟩
  refine ⟨code.take i, code.drop (i + 1), ?_, ?_⟩
  · rw [← hget, List.getElem_cons_drop, List.take_append_drop]
  · rw [List.length_take, Nat.min_eq_left (Nat.le_of_lt hlt)]

/-- In balanced code every opening bracket opens a loop. -/
theorem Balanced.exists_loopAt_of_open (h : Balanced code) (hi : code[i]? = some '[') :
    ∃ k, LoopAt code i k := by
  rcases exists_split hi with ⟨before, rest, rfl, rfl⟩
  rcases h.exists_close with ⟨body, back, rfl, hbody⟩
  exact ⟨_, before, body, back, rfl, hbody, rfl, rfl⟩

/-- In balanced code every closing bracket closes a loop. -/
theorem Balanced.exists_loopAt_of_close (h : Balanced code) (hk : code[k]? = some ']') :
    ∃ i, LoopAt code i k := by
  rcases exists_split hk with ⟨before, back, rfl, rfl⟩
  rcases h.exists_open with ⟨front, body, rfl, hbody⟩
  refine ⟨_, front, body, back, by simp, hbody, rfl, ?_⟩
  rw [List.length_append, List.length_cons]
  omega

/-- Behind an opening bracket and balanced code the bracket is still open. -/
theorem closes_open (hbody : Balanced body) (before : List Char) (depth : Nat) :
    closes depth (before ++ '[' :: body) = false := by
  -- induction on what stands in front, at any depth: it may only close more
  induction before generalizing depth with
  | nil =>
      have hend := hbody.closes_append (depth + 1) []
      rw [List.append_nil] at hend
      exact hend
  | cons c before ih =>
      rw [List.cons_append, closes]
      simp only [ih, Bool.and_false, ite_self]

/-- An opening bracket with balanced code behind it is not closed. -/
theorem not_balanced_open (hbody : Balanced body) : ¬ Balanced (before ++ '[' :: body) := by
  rw [balanced_iff_closes, closes_open hbody]
  exact Bool.false_ne_true

/-- Behind balanced code there is nothing to close. -/
theorem not_balanced_close (hbody : Balanced body) : ¬ Balanced (body ++ ']' :: back) := by
  rw [balanced_iff_closes, hbody.closes_append]
  exact Bool.false_ne_true

/-! ## Where the scan stops -/

/-- A program that has been read in part: the positions of the brackets that are open,
the innermost first, with balanced code in front of them, between them and behind. -/
inductive Opening : (opens : List Nat) → List Char → Prop where
  | balanced {code : List Char} (h : Balanced code) : Opening [] code
  | deeper {opens : List Nat} {front body : List Char} (hfront : Opening opens front)
      (hbody : Balanced body) : Opening (front.length :: opens) (front ++ '[' :: body)

/-- Reading on over balanced code opens nothing. -/
theorem Opening.append (h : Opening opens front) (hcode : Balanced code) :
    Opening opens (front ++ code) := by
  cases h with
  | balanced h => exact .balanced (h.append hcode)
  | deeper hfront hbody =>
      rw [List.append_assoc, List.cons_append]
      exact .deeper hfront (hbody.append hcode)

/-- No closing bracket that has been read is without a partner. -/
theorem Opening.exists_loopAt (h : Opening opens code) (hk : code[k]? = some ']') :
    ∃ i, LoopAt code i k := by
  -- induction on the open brackets, from the outermost one inwards
  induction h generalizing k with
  | balanced h => exact h.exists_loopAt_of_close hk
  | @deeper opens front body hfront hbody ih =>
      -- the bracket stands in front of the open one or behind it
      rcases Nat.lt_trichotomy k front.length with hlt | rfl | hgt
      · rw [List.getElem?_append_left hlt] at hk
        rcases ih hk with ⟨i, hi⟩
        exact ⟨i, hi.append_right _⟩
      · simp at hk
      · obtain ⟨d, rfl⟩ := Nat.exists_eq_add_of_lt hgt
        rw [getElem?_behind] at hk
        rcases hbody.exists_loopAt_of_close hk with ⟨i, hi⟩
        exact ⟨_, hi.behind_open front⟩

/-- Behind balanced code a closing bracket is the first one without a partner. -/
theorem rejectedAt_of_close (hfront : Balanced front) :
    RejectedAt (front ++ ']' :: back) front.length := by
  refine .inl ⟨⟨by simp, ?_⟩, ?_⟩
  · rintro i ⟨before, body, rest, hcode, hbody, -, hk⟩
    -- if a loop ended here, its opening bracket would be open in the balanced front
    have hlength : front.length = (before ++ '[' :: body).length := by
      rw [List.length_append, List.length_cons]
      omega
    have hsplit : front ++ ']' :: back = (before ++ '[' :: body) ++ ']' :: rest := by
      simpa using hcode
    rw [(List.append_inj hsplit hlength).1] at hfront
    exact not_balanced_open hbody hfront
  · rintro k ⟨hk, hnone⟩
    apply Nat.le_of_not_lt
    intro hlt
    rw [List.getElem?_append_left hlt] at hk
    rcases hfront.exists_loopAt_of_close hk with ⟨i, hi⟩
    exact hnone i (hi.append_right _)

/-- At the end of the program the innermost open bracket is the last one without a
partner. -/
theorem rejectedAt_of_open (hfront : Opening opens front) (hbody : Balanced body) :
    RejectedAt (front ++ '[' :: body) front.length := by
  refine .inr ⟨?_, ⟨⟨by simp, ?_⟩, ?_⟩⟩
  · rintro k ⟨hk, hnone⟩
    rcases (Opening.deeper hfront hbody).exists_loopAt hk with ⟨i, hi⟩
    exact hnone i hi
  · rintro k ⟨before, inner, rest, hcode, hinner, hi, -⟩
    -- if a loop began here, its closing bracket would close nothing in the balanced body
    have htail := List.cons.inj (List.append_inj hcode hi).2
    rw [htail.2] at hbody
    exact not_balanced_close hinner hbody
  · rintro i ⟨hi, hnone⟩
    apply Nat.le_of_not_lt
    intro hgt
    obtain ⟨d, rfl⟩ := Nat.exists_eq_add_of_lt hgt
    rw [getElem?_behind] at hi
    rcases hbody.exists_loopAt_of_open hi with ⟨k, hk⟩
    exact hnone _ (hk.behind_open front)

/-- The scan goes on with what is open of the part that has been read, and stops only
at a bracket without a partner. -/
theorem rejectedAt_of_scan {entries : Array (Option Nat)} (hbefore : Opening opens before)
    (hsize : entries.size = before.length) (h : scan entries opens code = .error ip) :
    RejectedAt (before ++ code) ip := by
  -- induction on what is still to be read, with what has been read free
  induction code generalizing before entries opens with
  | nil =>
      rw [List.append_nil]
      cases hbefore with
      | balanced => simp [scan] at h
      | deeper hfront hbody =>
          obtain rfl := Except.error.inj h
          exact rejectedAt_of_open hfront hbody
  | cons c rest ih =>
      by_cases hopen : c = '['
      · subst hopen
        rw [scan_open] at h
        have hnext := Opening.deeper hbefore .nil
        rw [← hsize] at hnext
        simpa using ih hnext (by simp [hsize]) h
      · by_cases hclose : c = ']'
        · subst hclose
          cases hbefore with
          | balanced hfront =>
              have hstop : scan entries [] (']' :: rest) = .error entries.size := by simp [scan]
              rw [hstop] at h
              obtain rfl := Except.error.inj h
              rw [hsize]
              exact rejectedAt_of_close hfront
          | @deeper opens front body hfront hbody =>
              -- the innermost loop ends, and with it the code in front of it goes on
              rw [scan_close] at h
              have hnext := hfront.append (.loop hbody .nil)
              simpa using ih hnext (by simp [hsize, Nat.add_assoc]) h
        · rw [scan_other ⟨hopen, hclose⟩] at h
          have hnext := hbefore.append (.other ⟨hopen, hclose⟩ .nil)
          simpa using ih hnext (by simp [hsize]) h

/-- No program is rejected at two of its brackets. -/
theorem RejectedAt.unique (hi : RejectedAt code i) (hk : RejectedAt code k) : i = k := by
  -- a closing bracket without a partner goes first; least and greatest are unique
  rcases hi with hi | ⟨hnone, hi⟩
  · rcases hk with hk | ⟨hnone', -⟩
    · exact hi.unique hk
    · exact absurd hi.1 (hnone' i)
  · rcases hk with hk | ⟨-, hk⟩
    · exact absurd hk.1 (hnone k)
    · exact hi.unique hk

/-- A program that is rejected has a bracket without a partner. -/
theorem RejectedAt.not_balanced (h : RejectedAt code ip) : ¬ Balanced code := by
  intro hcode
  -- in balanced code the bracket would have a loop
  rcases h with ⟨⟨hip, hnone⟩, -⟩ | ⟨-, ⟨hip, hnone⟩, -⟩
  · rcases hcode.exists_loopAt_of_close hip with ⟨i, hi⟩
    exact hnone i hi
  · rcases hcode.exists_loopAt_of_open hip with ⟨k, hk⟩
    exact hnone k hk

/-- The scan rejects a program at that bracket, and at no other. -/
theorem partners_eq_error_iff : partners code = .error ip ↔ RejectedAt code ip := by
  -- the scan begins with nothing read and nothing open
  have hstop : ∀ i, partners code = .error i → RejectedAt code i := by
    intro i hi
    exact rejectedAt_of_scan (.balanced .nil) rfl hi
  constructor
  · exact hstop ip
  · intro h
    cases hpartners : partners code with
    | ok table => exact absurd (balanced_iff_partners.2 ⟨table, hpartners⟩) h.not_balanced
    | error i => rw [h.unique (hstop i hpartners)]

example : partners "[[]+[".toList = .error 4 := by decide

end Brackets

/-! ## Loaded programs -/

namespace Loaded

open Brackets

variable {program : Loaded} {code : List Char} {i k : Nat}

/-- Loading rejects a program where the scan does. -/
theorem ofCode_eq_error_iff {ip : Nat} :
    ofCode code = .error (.unmatchedBracket ip) ↔ RejectedAt code ip := by
  rw [← partners_eq_error_iff, ofCode]
  cases Brackets.partners code <;> simp

/-- The ends of a loop are partners. -/
theorem partners_of_loopAt (hload : ofCode code = .ok program) (h : LoopAt code i k) :
    program.partners.getD i none = some k ∧ program.partners.getD k none = some i := by
  rcases h with ⟨before, body, back, hcode, hbody, rfl, rfl⟩
  exact partners_of_loop hload hbody hcode

/-- If the table holds everything that is a partner, it holds the only one. -/
theorem only_partner {P : Nat → Prop} {entry : Option Nat} (hsome : ∃ j, P j)
    (hentry : ∀ j, P j → entry = some j) : ∃ k, entry = some k ∧ ∀ j, P j ↔ j = k := by
  rcases hsome with ⟨k, hk⟩
  refine ⟨k, hentry k hk, ?_⟩
  intro j
  constructor
  · intro hj
    exact Option.some.inj ((hentry j hj).symm.trans (hentry k hk))
  · rintro rfl
    exact hk

/-- An opening bracket has exactly one partner, and the table holds it. -/
theorem partner_of_open (hload : ofCode code = .ok program) (hi : code[i]? = some '[') :
    ∃ k, program.partners.getD i none = some k ∧ ∀ j, LoopAt code i j ↔ j = k := by
  apply only_partner ((balanced_of_ofCode hload).exists_loopAt_of_open hi)
  intro j hj
  exact (partners_of_loopAt hload hj).1

/-- So has a closing bracket. -/
theorem partner_of_close (hload : ofCode code = .ok program) (hk : code[k]? = some ']') :
    ∃ i, program.partners.getD k none = some i ∧ ∀ j, LoopAt code j k ↔ j = i := by
  apply only_partner ((balanced_of_ofCode hload).exists_loopAt_of_close hk)
  intro j hj
  exact (partners_of_loopAt hload hj).2

end Loaded

/-! ## Runs -/

namespace Machine

open Brackets (Balanced LoopAt RejectedAt)

/-- It is only before its first instruction that a program is rejected. -/
theorem run_eq_unmatchedBracket_iff (m : Machine) (code : List Char) (limit ip : Nat) :
    (m.run code limit).2 = .error (.unmatchedBracket ip) ↔ RejectedAt code ip := by
  constructor
  · intro h
    rcases Loaded.run_cases m code limit with
      ⟨i, hload, hrun⟩ | ⟨program, n, t, -, -, hrun | hrun | ⟨c, fault, hfault, hrun⟩⟩ <;>
      rw [hrun] at h
    · cases h
      exact Loaded.ofCode_eq_error_iff.1 hload
    · cases h
    · cases h
    · cases h
      -- no instruction has this fault, so it comes from loading
      exact absurd rfl ((ne_of_fault? hfault).1 ip)
  · intro h
    rw [run_of_ofCode_error (Loaded.ofCode_eq_error_iff.2 h)]

/-- A run rejects a program exactly if its brackets are not balanced, at the first
closing bracket without a partner or else at the last opening one, and the machine is
left as it was. In any other program the table sends each bracket to its only partner,
and no generated program is rejected. -/
theorem rejection_of_run (code : List Char) (m : Machine) (limit : Nat) :
    ((∃ ip, (m.run code limit).2 = .error (.unmatchedBracket ip)) ↔ ¬ Balanced code) ∧
      (∀ ip, (m.run code limit).2 = .error (.unmatchedBracket ip) ↔ RejectedAt code ip) ∧
      (∀ ip, (m.run code limit).2 = .error (.unmatchedBracket ip) →
        (m.run code limit).1 = m) ∧
      (Balanced code → ∃ program, Loaded.ofCode code = .ok program ∧
        m.run code limit = runFrom program limit limit 0 m ∧
        (∀ i, code[i]? = some '[' → ∃ k, program.partners.getD i none = some k ∧
          ∀ j, LoopAt code i j ↔ j = k) ∧
        (∀ k, code[k]? = some ']' → ∃ i, program.partners.getD k none = some i ∧
          ∀ j, LoopAt code j k ↔ j = i)) ∧
      ∀ (stage : Code.Stage) (text : String) (ip : Nat),
        (m.run (stage.code text) limit).2 ≠ .error (.unmatchedBracket ip) := by
  refine ⟨⟨?_, ?_⟩, run_eq_unmatchedBracket_iff m code limit, ?_, ?_, ?_⟩
  · rintro ⟨ip, hrun⟩
    exact ((run_eq_unmatchedBracket_iff m code limit ip).1 hrun).not_balanced
  · intro hcode
    rcases Loaded.exists_ofCode_error hcode with ⟨ip, hload⟩
    exact ⟨ip, by rw [run_of_ofCode_error hload]⟩
  · intro ip hrun
    have hrejected := (run_eq_unmatchedBracket_iff m code limit ip).1 hrun
    rw [run_of_ofCode_error (Loaded.ofCode_eq_error_iff.2 hrejected)]
  · intro hcode
    rcases Loaded.exists_ofCode hcode with ⟨program, hload⟩
    exact ⟨program, hload, run_of_ofCode hload m limit,
      fun i => Loaded.partner_of_open hload, fun k => Loaded.partner_of_close hload⟩
  · intro stage text ip hrun
    -- programs for lines are balanced, before the pass and behind it
    have hrejected := (run_eq_unmatchedBracket_iff m _ limit ip).1 hrun
    exact hrejected.not_balanced (Code.balanced_code stage text)

end Machine

end TapeText
