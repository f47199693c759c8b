import TapeText.Proofs.Code.Shifts
import TapeText.Proofs.Machine.Tape

/-!
# TapeText.Proofs.Code.Meaning — the pass keeps what a program does

A program and what the pass makes of it are run side by side. They are at
corresponding positions when the pass has just finished with what is behind
the first one. From there the original executes either an instruction that was
kept, and so does the other one, or a pair that was dropped, and the other one
waits. A dropped pair leaves at most a new cell behind.

* `Trims` — two machines that differ in zeros at the end of the tape;
* `Aligned` — corresponding positions of the two programs;
* `Kept` — how the results are related;
* `run_dropPairs` — what the pass keeps of any run of any program.
-/

namespace TapeText.Code

open Brackets

/-- The second machine is the first one with some zero cells missing at the
end of the tape. -/
structure Trims (m m' : Machine) : Prop where
  kind : m'.kind = m.kind
  pointer : m'.pointer = m.pointer
  printed : m'.printed = m.printed
  low : m'.low = m.low
  high : m'.high = m.high
  cell : ∀ i, m'.cell i = m.cell i
  size : m'.cells.size ≤ m.cells.size
  inside : m'.Inside

namespace Trims

variable {m m' : Machine} {a b c : Char}

theorem refl (h : m.Inside) : Trims m m :=
  ⟨rfl, rfl, rfl, rfl, rfl, fun _ => rfl, Nat.le_refl _, h⟩

theorem current (h : Trims m m') : m'.current = m.current := by
  rw [Machine.current_eq_cell, Machine.current_eq_cell, h.pointer, h.cell]

/-- The first tape is at least as long, so its machine is on it too. -/
theorem inside_left (h : Trims m m') : m.Inside := by
  have hinside := h.inside
  unfold Machine.Inside at hinside ⊢
  rw [← h.pointer]
  exact Nat.lt_of_lt_of_le hinside h.size

/-- The zeros that are missing fill up the shorter tape. -/
theorem cells_eq (h : Trims m m') :
    m.cells = m'.cells ++ Array.replicate (m.cells.size - m'.cells.size) 0 := by
  have hsize := h.size
  apply Machine.cells_eq_of_cell
  · simp only [Array.size_append, Array.size_replicate]
    omega
  · intro i
    rw [← h.cell, Machine.cell, Array.getD_eq_getD_getElem?, Array.getD_eq_getD_getElem?,
      Array.getElem?_append]
    split
    · rfl
    · next hi =>
      -- behind its end the shorter tape reads as zero
      rw [Array.getElem?_eq_none (Nat.not_lt.1 hi), Array.getElem?_replicate]
      split <;> rfl

/-- A move to the right may add a cell to one tape, or to both. -/
theorem moveRight (h : Trims m m') : Trims m.moveRight m'.moveRight where
  kind := by rw [Machine.kind_moveRight, Machine.kind_moveRight, h.kind]
  pointer := by rw [Machine.pointer_moveRight, Machine.pointer_moveRight, h.pointer]
  printed := by rw [Machine.printed_moveRight, Machine.printed_moveRight, h.printed]
  low := by rw [Machine.low_moveRight, Machine.low_moveRight, h.low]
  high := by rw [Machine.high_moveRight, Machine.high_moveRight, h.high]
  cell := fun i => by rw [Machine.cell_moveRight, Machine.cell_moveRight, h.cell]
  size := by
    have hsize := h.size
    rw [Machine.size_moveRight h.inside, Machine.size_moveRight h.inside_left, h.pointer]
    omega
  inside := h.inside.execute '>'

theorem moveLeft (h : Trims m m') : Trims m.moveLeft m'.moveLeft :=
  ⟨h.kind, congrArg (· - 1) h.pointer, h.printed, h.low, h.high, h.cell, h.size,
    h.inside.execute '<'⟩

theorem adjust (h : Trims m m') (amount : Int) : Trims (m.adjust amount) (m'.adjust amount) := by
  have hvalue : m'.kind.store (m'.current + amount) = m.kind.store (m.current + amount) := by
    rw [h.kind, h.current]
  -- the ends of the range move with the value that is stored, and it is the same
  refine ⟨h.kind, h.pointer, h.printed, ?_, ?_, ?_, ?_, ?_⟩
  · show min m'.low (m'.kind.store (m'.current + amount)) = _
    rw [hvalue, h.low]
    rfl
  · show max m'.high (m'.kind.store (m'.current + amount)) = _
    rw [hvalue, h.high]
    rfl
  · intro i
    rw [Machine.cell_adjust h.inside, Machine.cell_adjust h.inside_left, h.pointer, h.kind, h.cell]
  · rw [Machine.size_adjust, Machine.size_adjust]
    exact h.size
  · show m'.pointer < (m'.adjust amount).cells.size
    rw [Machine.size_adjust]
    exact h.inside

theorem print (h : Trims m m') : Trims m.print m'.print := by
  refine ⟨h.kind, h.pointer, ?_, h.low, h.high, h.cell, h.size, h.inside⟩
  show m'.printed.push m'.current.toNat.toUInt16 = _
  rw [h.printed, h.current]
  rfl

/-- Both machines execute an instruction in the same way. -/
theorem execute (h : Trims m m') (c : Char) : Trims (m.execute c) (m'.execute c) := by
  unfold Machine.execute
  split
  · exact h.moveRight
  · exact h.moveLeft
  · exact h.adjust 1
  · exact h.adjust (-1)
  · exact h.print
  · exact h

/-- A dropped pair does not move the pointer; it may only leave a new cell. -/
theorem pair (h : Trims m m') (hab : opposite a b = true) {ip : Nat}
    (hf : m.fault? a ip = none) : Trims ((m.execute a).execute b) m' := by
  rcases opposite_eq_true.1 hab with ⟨rfl, rfl⟩ | ⟨rfl, rfl⟩
  · -- to the left and back: nothing has changed
    have hpointer : m.pointer ≠ 0 := by
      intro hzero
      simp [Machine.fault?, hzero] at hf
    show Trims m.moveLeft.moveRight m'
    rw [Machine.moveRight_moveLeft h.inside_left hpointer]
    exact h
  · -- to the right and back: there may be a new cell
    show Trims m.moveRight.moveLeft m'
    have hback : m.moveRight.moveLeft.pointer = m.pointer := by
      show m.moveRight.pointer - 1 = m.pointer
      rw [Machine.pointer_moveRight]
      rfl
    refine ⟨by rw [h.kind]; exact (Machine.kind_moveRight m).symm, by rw [hback, h.pointer],
      by rw [h.printed]; exact (Machine.printed_moveRight m).symm,
      by rw [h.low]; exact (Machine.low_moveRight m).symm,
      by rw [h.high]; exact (Machine.high_moveRight m).symm,
      fun i => by rw [Machine.cell_moveLeft, Machine.cell_moveRight, h.cell i], ?_, h.inside⟩
    show m'.cells.size ≤ m.moveRight.cells.size
    rw [Machine.size_moveRight h.inside_left]
    exact Nat.le_trans h.size (Nat.le_max_left _ _)

end Trims

/-! ## Corresponding positions -/

/-- The pass has just finished with what is behind the first position, and
what it kept of that ends at the second one. -/
def Aligned (code : List Char) (ip ip' : Nat) : Prop :=
  ∃ front back, code = front ++ back ∧ Settled front back ∧ ip = front.length ∧
    ip' = (dropPairs front).length

variable {code front rest : List Char} {a b c : Char} {program program' : Loaded}

/-- Both programs begin at corresponding positions. -/
theorem aligned_start (code : List Char) : Aligned code 0 0 :=
  ⟨[], code, rfl, settled_nil_left code, rfl, rfl⟩

/-- The positions behind a kept character correspond. -/
theorem aligned_behind (hcode : code = front ++ c :: rest) (h : Settled front (c :: rest))
    (hkeep : ∀ b ∈ rest.head?, opposite c b = false) :
    Aligned code (front.length + 1) ((dropPairs front).length + 1) := by
  refine ⟨front ++ [c], rest, by simp [hcode], settled_concat h hkeep, by simp, ?_⟩
  rw [dropPairs_concat h, List.length_append]
  rfl

/-- The positions behind a dropped pair correspond. -/
theorem aligned_behind_pair (hcode : code = front ++ a :: b :: rest)
    (h : Settled front (a :: b :: rest)) (hab : opposite a b = true) :
    Aligned code (front.length + 2) (dropPairs front).length := by
  refine ⟨front ++ [a, b], rest, by simp [hcode], settled_of_opposite h hab rest, by simp, ?_⟩
  rw [dropPairs_concat_pair h hab]

/-- The instruction of the second program at a corresponding position. -/
theorem getElem?_dropPairs (h' : Loaded.ofCode (dropPairs code) = .ok program')
    (hcode : code = front ++ c :: rest) (h : Settled front (c :: rest))
    (hkeep : ∀ b ∈ rest.head?, opposite c b = false) :
    program'.code[(dropPairs front).length]? = some c := by
  -- the character is kept, so the pass may be cut on both sides of it
  have hcut : Settled [c] rest := settled_concat (settled_nil_left [c]) hkeep
  have hrest : dropPairs (c :: rest) = c :: dropPairs rest := dropPairs_append hcut
  have hcode' : dropPairs code = dropPairs front ++ c :: dropPairs rest := by
    rw [hcode, dropPairs_append h, hrest]
  exact Loaded.getElem?_of_ofCode h' hcode'

/-- From corresponding positions a kept instruction leads to corresponding
positions. -/
theorem aligned_next (hload : Loaded.ofCode code = .ok program)
    (hload' : Loaded.ofCode (dropPairs code) = .ok program')
    (hcode : code = front ++ c :: rest) (h : Settled front (c :: rest))
    (hkeep : ∀ b ∈ rest.head?, opposite c b = false) {m m' : Machine} (hm : Trims m m') :
    Aligned code (m.next c front.length (program.partners.getD front.length none))
      (m'.next c (dropPairs front).length
        (program'.partners.getD (dropPairs front).length none)) := by
  have hbalanced := Loaded.balanced_of_ofCode hload
  have hbehind := aligned_behind hcode h hkeep
  have hlen : ∀ n k : Nat, n + 1 + k = n + (k + 1) := by omega
  unfold Machine.next
  split
  · -- an opening bracket: behind it, or behind its partner
    rw [hm.current]
    split
    · rw [hcode] at hbalanced
      rcases hbalanced.exists_close with ⟨body, back, rfl, hbody⟩
      have hpartner := (Loaded.partners_of_loop hload hbody hcode).1
      have hcode' : dropPairs code =
          dropPairs front ++ '[' :: (dropPairs body ++ ']' :: dropPairs back) := by
        rw [hcode, dropPairs_append_cons isFixed_open, dropPairs_append_cons isFixed_close]
      have hpartner' :=
        (Loaded.partners_of_loop hload' (balanced_dropPairs.2 hbody) hcode').1
      -- the position behind the partner, in the original and in what is left of it
      have hloop : code = (front ++ '[' :: body) ++ ']' :: back := by simp [hcode]
      have hend := aligned_behind hloop (settled_of_fixed isFixed_close _ _)
        fun b _ => isFixed_close.opposite_left b
      rw [dropPairs_append_cons isFixed_open, List.length_append, List.length_append] at hend
      rw [hpartner, hpartner', Option.getD_some, Option.getD_some, hlen, hlen]
      exact hend
    · exact hbehind
  · -- a closing bracket: behind it, or behind its partner
    rw [hm.current]
    split
    · exact hbehind
    · rw [hcode] at hbalanced
      rcases hbalanced.exists_open with ⟨before, body, rfl, hbody⟩
      have hloop : code = before ++ '[' :: (body ++ ']' :: rest) := by simp [hcode]
      have hpartner := (Loaded.partners_of_loop hload hbody hloop).2
      have hloop' : dropPairs code =
          dropPairs before ++ '[' :: (dropPairs body ++ ']' :: dropPairs rest) := by
        rw [hloop, dropPairs_append_cons isFixed_open, dropPairs_append_cons isFixed_close]
      have hpartner' :=
        (Loaded.partners_of_loop hload' (balanced_dropPairs.2 hbody) hloop').2
      -- a bracket is never dropped, so the loop begins at a corresponding position
      have hbegin := aligned_behind hloop (settled_of_fixed isFixed_open _ _)
        fun b _ => isFixed_open.opposite_left b
      rw [hlen] at hpartner hpartner'
      rw [dropPairs_append_cons isFixed_open, List.length_append, List.length_append,
        List.length_cons, List.length_cons, hpartner, hpartner', Option.getD_some,
        Option.getD_some]
      exact hbegin
  · exact hbehind

/-! ## Runs side by side -/

/-- What becomes of a result when the pass is applied to the program. Nothing
is said where the original runs into the left end of the tape or out of
steps. -/
inductive Kept : Machine × Except Fault Unit → Machine × Except Fault Unit → Prop where
  | ok {m m' : Machine} (h : Trims m m') : Kept (m, .ok ()) (m', .ok ())
  | unmatchedBracket {m m' : Machine} (h : Trims m m') (ip ip' : Nat) :
      Kept (m, .error (.unmatchedBracket ip)) (m', .error (.unmatchedBracket ip'))
  | invalidCharacter {m m' : Machine} (h : Trims m m') (c : Char) (ip ip' : Nat) :
      Kept (m, .error (.invalidCharacter c ip)) (m', .error (.invalidCharacter c ip'))
  | cellOutOfRange {m m' : Machine} (h : Trims m m') (ip ip' : Nat) (value : Int) :
      Kept (m, .error (.cellOutOfRange ip value)) (m', .error (.cellOutOfRange ip' value))
  | pointerUnderflow (m : Machine) (ip : Nat) (result : Machine × Except Fault Unit) :
      Kept (m, .error (.pointerUnderflow ip)) result
  | stepLimitExceeded (m : Machine) (limit : Nat) (result : Machine × Except Fault Unit) :
      Kept (m, .error (.stepLimitExceeded limit)) result

/-- An instruction that fails on the first machine fails on the second one for
the same reason. -/
theorem kept_of_fault {m m' : Machine} (hm : Trims m m') {ip ip' limit budget : Nat}
    {fault : Fault} (hf : m.fault? c ip = some fault) (hc : program'.code[ip']? = some c) :
    Kept (m, .error fault) (Machine.runFrom program' limit (budget + 1) ip' m') := by
  rcases Machine.fault?_cases hf with ⟨rfl, -, rfl⟩ | ⟨rfl, hrange, rfl⟩ | ⟨hany, rfl⟩
  · exact .pointerUnderflow m ip _
  · -- both machines hold the same value under the pointer
    have hf' : m'.fault? '.' ip' = some (.cellOutOfRange ip' m.current) := by
      simp only [Machine.fault?, hm.current, if_neg hrange]
    rw [Machine.runFrom_fault hc hf']
    exact .cellOutOfRange hm ip ip' _
  · rw [Machine.runFrom_fault hc (hany m' ip')]
    exact .invalidCharacter hm c ip ip'

/-- An instruction that can be executed on the first machine can be executed
on the second one. -/
theorem fault?_eq_none {m m' : Machine} (hm : Trims m m') {ip : Nat}
    (hf : m.fault? c ip = none) (ip' : Nat) : m'.fault? c ip' = none := by
  unfold Machine.fault? at hf ⊢
  rw [hm.current, hm.pointer]
  split at hf <;> simp_all

/-- Both halves of a pair lead to their neighbours, and the second one has no
fault. -/
theorem next_of_opposite (hab : opposite a b = true) (m : Machine) (ip : Nat)
    (partner partner' : Option Nat) :
    m.next a ip partner = ip + 1 ∧ (m.execute a).fault? b (ip + 1) = none ∧
      (m.execute a).next b (ip + 1) partner' = ip + 2 := by
  rcases opposite_eq_true.1 hab with ⟨rfl, rfl⟩ | ⟨rfl, rfl⟩
  · exact ⟨rfl, rfl, rfl⟩
  · refine ⟨rfl, ?_, rfl⟩
    -- behind a move to the right there is a cell to the left
    have hpointer : m.moveRight.pointer ≠ 0 := by
      rw [Machine.pointer_moveRight]
      exact Nat.succ_ne_zero _
    exact if_neg hpointer

/-- The first half of a pair fails at the left end of the tape only. -/
theorem fault_of_opposite (hab : opposite a b = true) {m : Machine} {ip : Nat} {fault : Fault}
    (hf : m.fault? a ip = some fault) : fault = .pointerUnderflow ip := by
  rcases opposite_eq_true.1 hab with ⟨rfl, -⟩ | ⟨rfl, -⟩
  · unfold Machine.fault? at hf
    simp only [Option.ite_none_right_eq_some] at hf
    exact (Option.some.inj hf.2).symm
  · simp [Machine.fault?] at hf

section Simulation

variable (hload : Loaded.ofCode code = .ok program)
  (hload' : Loaded.ofCode (dropPairs code) = .ok program')

include hload hload'

/-- Two runs from corresponding positions. The induction is on the steps the
original has left: each of its instructions uses one up, and a dropped pair
two, so the other run always has enough. -/
theorem runFrom_dropPairs (limit budget : Nat) {budget' ip ip' : Nat} {m m' : Machine}
    (hbudget : budget ≤ budget') (hip : Aligned code ip ip') (hm : Trims m m') :
    Kept (Machine.runFrom program limit budget ip m)
      (Machine.runFrom program' limit budget' ip' m') := by
  induction budget using Nat.strongRecOn generalizing budget' ip ip' m m' with
  | _ budget ih =>
    rcases hip with ⟨front, back, hcode, hsettled, rfl, rfl⟩
    cases back with
    | nil =>
        -- both programs are over
        have hend : program.code.size ≤ front.length := by
          apply Nat.le_of_eq
          rw [Loaded.size_of_ofCode hload, hcode, List.append_nil]
        have hend' : program'.code.size ≤ (dropPairs front).length := by
          apply Nat.le_of_eq
          rw [Loaded.size_of_ofCode hload', hcode, List.append_nil]
        rw [Machine.runFrom_of_size_le _ _ hend, Machine.runFrom_of_size_le _ _ hend']
        exact .ok hm
    | cons a rest =>
        have ha := Loaded.getElem?_of_ofCode hload hcode
        have hlt : front.length < program.code.size := (Array.getElem?_eq_some_iff.1 ha).1
        cases budget with
        | zero =>
            rw [Machine.runFrom_zero m hlt]
            exact .stepLimitExceeded m limit _
        | succ budget =>
            obtain ⟨k, rfl⟩ : ∃ k, budget' = k + 1 := ⟨budget' - 1, by omega⟩
            by_cases hkeep : ∀ b ∈ rest.head?, opposite a b = false
            · -- both programs execute the kept instruction
              have ha' := getElem?_dropPairs hload' hcode hsettled hkeep
              rcases hf : m.fault? a front.length with _ | fault
              · rw [Machine.runFrom_succ ha hf, Machine.runFrom_succ ha' (fault?_eq_none hm hf _)]
                exact ih budget (Nat.lt_succ_self _) (by omega)
                  (aligned_next hload hload' hcode hsettled hkeep hm) (hm.execute a)
              · rw [Machine.runFrom_fault ha hf]
                exact kept_of_fault hm hf ha'
            · -- the original executes the dropped pair, the other program waits
              obtain ⟨b, more, rfl, hab⟩ : ∃ b more, rest = b :: more ∧ opposite a b = true := by
                cases rest with
                | nil => simp at hkeep
                | cons b more => exact ⟨b, more, rfl, by simpa using hkeep⟩
              have hcode₁ : code = (front ++ [a]) ++ b :: more := by simp [hcode]
              have hb := Loaded.getElem?_of_ofCode hload hcode₁
              rw [List.length_append, List.length_singleton] at hb
              rcases hf : m.fault? a front.length with _ | fault
              · obtain ⟨hnext, hfb, hnext'⟩ := next_of_opposite hab m front.length
                  (program.partners.getD front.length none)
                  (program.partners.getD (front.length + 1) none)
                rw [Machine.runFrom_succ ha hf, hnext]
                cases budget with
                | zero =>
                    rw [Machine.runFrom_zero _ (Array.getElem?_eq_some_iff.1 hb).1]
                    exact .stepLimitExceeded _ limit _
                | succ budget =>
                    rw [Machine.runFrom_succ hb hfb, hnext']
                    exact ih budget (by omega) (by omega)
                      (aligned_behind_pair hcode hsettled hab) (hm.pair hab hf)
              · rw [Machine.runFrom_fault ha hf, fault_of_opposite hab hf]
                exact .pointerUnderflow m _ _

end Simulation

/-- The results of a program and of what the pass makes of it. -/
theorem kept_run_dropPairs (code : List Char) (limit : Nat) {m : Machine} (hm : m.Inside) :
    Kept (m.run code limit) (m.run (dropPairs code) limit) := by
  by_cases hbalanced : Balanced code
  · rcases Loaded.exists_ofCode hbalanced with ⟨program, hload⟩
    rcases Loaded.exists_ofCode (balanced_dropPairs.2 hbalanced) with ⟨program', hload'⟩
    rw [Machine.run_of_ofCode hload, Machine.run_of_ofCode hload']
    exact runFrom_dropPairs hload hload' limit limit (Nat.le_refl _) (aligned_start code)
      (Trims.refl hm)
  · -- the pass drops no bracket, so it makes a rejected program no better
    rcases Loaded.exists_ofCode_error hbalanced with ⟨ip, hload⟩
    rcases Loaded.exists_ofCode_error (mt balanced_dropPairs.1 hbalanced) with ⟨ip', hload'⟩
    rw [Machine.run_of_ofCode_error hload, Machine.run_of_ofCode_error hload']
    exact .unmatchedBracket (Trims.refl hm) ip ip'

/-- What the pass keeps of any run of any program, on either kind of cells. A
run that comes to its end still does, with the same pointer, output and range,
and with the same tape but for zeros at its end. A bracket without a partner,
a character that is no instruction and a print out of range are reported as
before; only their positions may differ. -/
theorem run_dropPairs (code : List Char) (m : Machine) (limit : Nat)
    (hm : m.pointer < m.cells.size) :
    ((m.run code limit).2 = .ok () →
      (m.run (dropPairs code) limit).2 = .ok () ∧
      (m.run (dropPairs code) limit).1.pointer = (m.run code limit).1.pointer ∧
      (m.run (dropPairs code) limit).1.printed = (m.run code limit).1.printed ∧
      (m.run (dropPairs code) limit).1.low = (m.run code limit).1.low ∧
      (m.run (dropPairs code) limit).1.high = (m.run code limit).1.high ∧
      ∃ k, (m.run code limit).1.cells =
        (m.run (dropPairs code) limit).1.cells ++ Array.replicate k 0) ∧
    (∀ ip, (m.run code limit).2 = .error (.unmatchedBracket ip) →
      ∃ ip', (m.run (dropPairs code) limit).2 = .error (.unmatchedBracket ip')) ∧
    (∀ c ip, (m.run code limit).2 = .error (.invalidCharacter c ip) →
      ∃ ip', (m.run (dropPairs code) limit).2 = .error (.invalidCharacter c ip')) ∧
    (∀ ip value, (m.run code limit).2 = .error (.cellOutOfRange ip value) →
      ∃ ip', (m.run (dropPairs code) limit).2 = .error (.cellOutOfRange ip' value)) := by
  have hkept := kept_run_dropPairs code limit hm
  -- from here on only the two results matter, and how they are related
  generalize m.run code limit = before at hkept ⊢
  generalize m.run (dropPairs code) limit = behind at hkept ⊢
  refine ⟨?_, ?_, ?_, ?_⟩
  · intro h
    cases hkept with
    | ok ht => exact ⟨rfl, ht.pointer, ht.printed, ht.low, ht.high, _, ht.cells_eq⟩
    | _ => simp at h
  · intro ip h
    cases hkept with
    | unmatchedBracket _ _ ip' => exact ⟨ip', rfl⟩
    | _ => simp at h
  · intro c ip h
    cases hkept with
    | invalidCharacter _ d _ ip' =>
        rcases Fault.invalidCharacter.inj (Except.error.inj h) with ⟨rfl, -⟩
        exact ⟨ip', rfl⟩
    | _ => simp at h
  · intro ip value h
    cases hkept with
    | cellOutOfRange _ _ ip' v =>
        rcases Fault.cellOutOfRange.inj (Except.error.inj h) with ⟨-, rfl⟩
        exact ⟨ip', rfl⟩
    | _ => simp at h

/-- A pair that is dropped in the body of a loop, at the end of the tape: the
tape stays one cell shorter, and nothing else is different. -/
theorem run_dropPairs_in_loop :
    ((Machine.fresh .wrapping16).run ['-', '[', '>', '<', '+', ']', '.'] 9).2 = .ok () ∧
      ((Machine.fresh .wrapping16).run (dropPairs ['-', '[', '>', '<', '+', ']', '.']) 9).2 =
        .ok () ∧
      ∃ k, #[0, 0] =
        ((Machine.fresh .wrapping16).run (dropPairs ['-', '[', '>', '<', '+', ']', '.']) 9).1.cells ++
          Array.replicate k 0 := by
  have hok :
      ((Machine.fresh .wrapping16).run ['-', '[', '>', '<', '+', ']', '.'] 9).2 = .ok () := by
    rfl
  have h := (run_dropPairs ['-', '[', '>', '<', '+', ']', '.'] (Machine.fresh .wrapping16) 9
    (by decide)).1 hok
  exact ⟨hok, h.1, h.2.2.2.2.2⟩

end TapeText.Code
