import TapeText.Proofs.Machine.Limit
import TapeText.Proofs.Machine.Rejection

/-!
# TapeText.Proofs.Machine.Concatenation — programs one behind the other

Where two programs stand one behind the other, each of them still runs as it does alone.
The first one executes the same instructions, because its brackets keep their partners; the
second one is only farther from the beginning, and so its positions are larger.

* `Fault.behind`, `Moment.behind`, `endBehind` — what is reported behind other code;
* `Contains` — a program that stands somewhere in another one;
* `Contains.step?`, `Contains.after`, `Contains.runFrom_last` — it runs there as it does alone;
* `run_append_of_returnsIn`, `run_append_of_error` — the run of two programs;
* `runParts`, `run_flatten` — any number of parts, one after the other;
* `run_in_parts` — what this says of programs for a line.
-/

namespace TapeText

/-! ## Behind other code -/

/-- A fault with the positions and the limit it has behind `offset` characters that have
taken `steps` steps. -/
def Fault.behind (offset steps : Nat) : Fault → Fault
  | .unmatchedBracket ip => .unmatchedBracket (offset + ip)
  | .pointerUnderflow ip => .pointerUnderflow (offset + ip)
  | .invalidCharacter ch ip => .invalidCharacter ch (offset + ip)
  | .cellOutOfRange ip value => .cellOutOfRange (offset + ip) value
  | .stepLimitExceeded limit => .stepLimitExceeded (steps + limit)

/-- The end of a run as it is reported behind other code. -/
def endBehind (offset steps : Nat) (ending : Machine × Except Fault Unit) :
    Machine × Except Fault Unit :=
  (ending.1, ending.2.mapError (Fault.behind offset steps))

/-- A moment as it is behind other code. -/
def Moment.behind (offset : Nat) (s : Moment) : Moment := ⟨offset + s.ip, s.machine⟩

theorem Fault.behind_zero (fault : Fault) : fault.behind 0 0 = fault := by
  cases fault <;> simp only [Fault.behind, Nat.zero_add]

/-- An instruction has the same fault wherever it stands. -/
theorem Machine.fault?_behind (m : Machine) (c : Char) (offset steps ip : Nat) :
    m.fault? c (offset + ip) = (m.fault? c ip).map (Fault.behind offset steps) := by
  unfold fault?
  split
  · split <;> rfl
  · split <;> rfl
  all_goals rfl

namespace Loaded

open Brackets

/-- The part stands in the program behind `offset` characters, and its brackets have the
same partners there. -/
structure Contains (program part : Loaded) (offset : Nat) : Prop where
  code_eq : ∀ i c, part.code[i]? = some c → program.code[offset + i]? = some c
  partner_eq : ∀ i c, part.code[i]? = some c → c = '[' ∨ c = ']' →
    ∃ k, part.partners.getD i none = some k ∧
      program.partners.getD (offset + i) none = some (offset + k)

variable {program part : Loaded} {front code back : List Char} {c : Char} {s t : Moment}
variable {m m' : Machine} {offset limit budget n i : Nat}

/-! ## A part of a program -/

/-- Every bracket has its partner at the other end of a loop. -/
theorem exists_partner (hload : ofCode code = .ok program) (hc : code[i]? = some c)
    (hbracket : c = '[' ∨ c = ']') :
    ∃ k, program.partners.getD i none = some k ∧ (LoopAt code i k ∨ LoopAt code k i) := by
  have hbalanced := balanced_of_ofCode hload
  -- in balanced code both brackets belong to a loop
  rcases hbracket with rfl | rfl
  · rcases hbalanced.exists_loopAt_of_open hc with ⟨k, hk⟩
    exact ⟨k, (partners_of_loopAt hload hk).1, .inl hk⟩
  · rcases hbalanced.exists_loopAt_of_close hc with ⟨k, hk⟩
    exact ⟨k, (partners_of_loopAt hload hk).2, .inr hk⟩

/-- A program contains all of its parts that are balanced. -/
theorem contains_of_ofCode (hload : ofCode (front ++ (code ++ back)) = .ok program)
    (hpart : ofCode code = .ok part) : program.Contains part front.length where
  code_eq := by
    intro i c hc
    rw [getElem?_code hpart] at hc
    have hlt := (List.getElem?_eq_some_iff.1 hc).1
    rw [getElem?_code hload, List.getElem?_append_right (Nat.le_add_right _ _),
      Nat.add_sub_cancel_left, List.getElem?_append_left hlt]
    exact hc
  partner_eq := by
    intro i c hc hbracket
    rw [getElem?_code hpart] at hc
    rcases exists_partner hpart hc hbracket with ⟨k, hk, hloop⟩
    refine ⟨k, hk, ?_⟩
    -- the loop stands in the program as well
    rcases hloop with hloop | hloop
    · exact (partners_of_loopAt hload ((hloop.append_right back).append_left front)).1
    · exact (partners_of_loopAt hload ((hloop.append_right back).append_left front)).2

/-- No instruction leads farther than to the end of its program. -/
theorem next_le (hload : ofCode code = .ok program) (hc : program.code[i]? = some c)
    (m : Machine) : m.next c i (program.partners.getD i none) ≤ code.length := by
  rw [getElem?_code hload] at hc
  have hi := (List.getElem?_eq_some_iff.1 hc).1
  -- a bracket leads behind itself or behind its partner, any other instruction to its
  -- neighbour
  by_cases hbracket : c = '[' ∨ c = ']'
  · rcases exists_partner hload hc hbracket with ⟨k, hk, hloop⟩
    have hlt : k < code.length := by
      rcases hloop with hloop | hloop
      · exact hloop.lt_length.2
      · exact hloop.lt_length.1
    rw [hk]
    rcases m.next_of_bracket hbracket with hnext | hnext
    · rw [hnext]
      exact hi
    · rw [hnext]
      exact hlt
  · rw [m.next_of_not_bracket (not_or.1 hbracket)]
    exact hi

/-- A run never leaves its program but at the end. -/
theorem ip_le_of_after (hload : ofCode code = .ok program)
    (h : program.after n ⟨0, m⟩ = some t) : t.ip ≤ code.length := by
  refine after_induction (Q := fun r => r.ip ≤ code.length) (Nat.zero_le _) ?_ h
  intro k r u _ hstep _
  rcases exists_of_step? hstep with ⟨c, hc, -, rfl⟩
  exact next_le hload hc r.machine

namespace Contains

/-- In the program the part leads to the same places. -/
theorem next_eq (h : program.Contains part offset) (hc : part.code[i]? = some c)
    (m : Machine) :
    m.next c (offset + i) (program.partners.getD (offset + i) none) =
      offset + m.next c i (part.partners.getD i none) := by
  -- only brackets look at the partners, and those are moved as the part is
  by_cases hbracket : c = '[' ∨ c = ']'
  · rcases h.partner_eq i c hc hbracket with ⟨k, hpart, hprogram⟩
    rw [hpart, hprogram]
    rcases m.next_of_bracket hbracket with hnext | hnext
    · rw [hnext, hnext]
      exact Nat.add_assoc offset i 1
    · rw [hnext, hnext]
      exact Nat.add_assoc offset k 1
  · rw [m.next_of_not_bracket (not_or.1 hbracket), m.next_of_not_bracket (not_or.1 hbracket)]
    exact Nat.add_assoc offset i 1

theorem lt_size (h : program.Contains part offset) (hi : i < part.code.size) :
    offset + i < program.code.size :=
  (Array.getElem?_eq_some_iff.1 (h.code_eq i _ (Array.getElem?_eq_getElem hi))).1

/-- A step of the part is a step of the program. -/
theorem step? (h : program.Contains part offset) (hstep : part.step? s = some t) :
    program.step? (s.behind offset) = some (t.behind offset) := by
  rcases exists_of_step? hstep with ⟨c, hc, hfault, rfl⟩
  have hfault' : s.machine.fault? c (offset + s.ip) = none := by
    rw [s.machine.fault?_behind c offset 0, hfault]
    rfl
  have hstep' := step?_eq_some (s := s.behind offset) (h.code_eq s.ip c hc) hfault'
  have hnext := h.next_eq hc s.machine
  rw [hstep']
  exact congrArg (fun ip => some (Moment.mk ip (s.machine.execute c))) hnext

/-- So are any number of steps. -/
theorem after (h : program.Contains part offset) (hafter : part.after n s = some t) :
    program.after n (s.behind offset) = some (t.behind offset) := by
  -- induction on the steps
  induction n generalizing t with
  | zero =>
      obtain rfl := Option.some.inj hafter
      rfl
  | succ n ih =>
      rcases after_succ_eq_some_iff.1 hafter with ⟨r, hr, hstep⟩
      exact after_succ_eq_some_iff.2 ⟨r.behind offset, ih hr, h.step? hstep⟩

/-- A part that stops with a fault stops the program with it. -/
theorem runFrom_of_error (h : program.Contains part offset) (steps : Nat) {fault : Fault}
    (hrun : Machine.runFrom part limit budget s.ip s.machine = (m', .error fault)) :
    Machine.runFrom program (steps + limit) budget (offset + s.ip) s.machine =
      (m', .error (fault.behind offset steps)) := by
  rcases runFrom_cases part limit budget s with ⟨n, t, hn, hafter, hcases⟩
  obtain ⟨rest, rfl⟩ := Nat.exists_eq_add_of_le hn
  have hrest := runFrom_of_after (h.after hafter) (steps + limit) rest
  refine hrest.trans ?_
  rcases hcases with ⟨-, heq⟩ | ⟨hzero, hip, heq⟩ | ⟨hlt, c, f, hc, hf, heq⟩
  · -- the part has not come to its end
    rw [hrun] at heq
    cases heq
  · -- the budget is used up at the same place
    rw [hrun] at heq
    cases heq
    obtain rfl : rest = 0 := by omega
    exact Machine.runFrom_zero t.machine (h.lt_size hip)
  · -- the instruction has its fault in the program too
    rw [hrun] at heq
    cases heq
    obtain ⟨k, rfl⟩ : ∃ k, rest = k + 1 := ⟨rest - 1, by omega⟩
    have hmoved := t.machine.fault?_behind c offset steps t.ip
    rw [hf] at hmoved
    exact Machine.runFrom_fault (h.code_eq t.ip c hc) hmoved

/-- The last part of a program ends as it does alone. -/
theorem runFrom_last (h : program.Contains part offset)
    (hlast : program.code.size = offset + part.code.size) (steps limit budget : Nat)
    (s : Moment) :
    Machine.runFrom program (steps + limit) budget (offset + s.ip) s.machine =
      endBehind offset steps (Machine.runFrom part limit budget s.ip s.machine) := by
  rcases hrun : Machine.runFrom part limit budget s.ip s.machine with ⟨m', fault | _⟩
  · -- a fault of the part is one of the program
    exact h.runFrom_of_error steps hrun
  · rcases exists_after_of_runFrom hrun with ⟨n, t, hn, hafter, hend, rfl⟩
    obtain ⟨rest, rfl⟩ := Nat.exists_eq_add_of_le hn
    refine (runFrom_of_after (h.after hafter) (steps + limit) rest).trans ?_
    -- behind the part there is nothing left
    apply Machine.runFrom_of_size_le
    rw [hlast]
    exact Nat.add_le_add_left hend offset

end Contains

/-- A program contains the part it begins with. -/
theorem contains_front (hload : ofCode (code ++ back) = .ok program)
    (hpart : ofCode code = .ok part) : program.Contains part 0 :=
  @contains_of_ofCode program part [] code back hload hpart

/-- It contains the part it ends with. -/
theorem contains_back (hload : ofCode (front ++ code) = .ok program)
    (hpart : ofCode code = .ok part) : program.Contains part front.length := by
  apply @contains_of_ofCode program part front code [] _ hpart
  rw [List.append_nil]
  exact hload

end Loaded

/-! ## Two programs -/

namespace Machine

open Brackets (Balanced)

variable {m m' : Machine} {code more : List Char} {limit steps : Nat}

/-- A program that stops with a fault stops with it whatever stands behind it. -/
theorem run_append_of_error (hcode : Balanced code) (hmore : Balanced more) {fault : Fault}
    (hrun : m.run code limit = (m', .error fault)) :
    m.run (code ++ more) limit = (m', .error fault) := by
  rcases Loaded.exists_ofCode hcode with ⟨part, hpart⟩
  rcases Loaded.exists_ofCode (hcode.append hmore) with ⟨program, hload⟩
  -- the front of the program is the part itself, with its positions
  rw [run_of_ofCode hpart] at hrun
  have hprogram :=
    (Loaded.contains_front hload hpart).runFrom_of_error (s := ⟨0, m⟩) 0 hrun
  rw [Nat.zero_add, Fault.behind_zero] at hprogram
  rw [run_of_ofCode hload]
  exact hprogram

/-- Behind a program that returns the next one runs as it does alone, on the machine that
is left. -/
theorem run_append_of_returnsIn (hcode : Balanced code) (hmore : Balanced more)
    (h : m.ReturnsIn code steps m') (limit : Nat) :
    m.run (code ++ more) (steps + limit) = endBehind code.length steps (m'.run more limit) := by
  rcases Loaded.exists_ofCode hmore with ⟨second, hsecond⟩
  rcases Loaded.exists_ofCode (hcode.append hmore) with ⟨program, hload⟩
  rcases returnsIn_iff.1 h with ⟨first, t, hfirst, hafter, hend, rfl⟩
  -- the first program ends where the second one begins
  rw [Loaded.size_of_ofCode hfirst] at hend
  have hip := Nat.le_antisymm (Loaded.ip_le_of_after hfirst hafter) hend
  have hmoved := (Loaded.contains_front hload hfirst).after hafter
  have hrun := Loaded.run_of_after hload hmoved (Nat.le_add_right steps limit)
  have hsize : program.code.size = code.length + second.code.size := by
    rw [Loaded.size_of_ofCode hload, Loaded.size_of_ofCode hsecond, List.length_append]
  have hlast := (Loaded.contains_back hload hsecond).runFrom_last hsize steps limit limit
    ⟨0, t.machine⟩
  rw [Nat.add_sub_cancel_left] at hrun
  rw [hrun, run_of_ofCode hsecond, ← hlast]
  show runFrom program _ limit (0 + t.ip) t.machine =
    runFrom program _ limit (code.length + 0) t.machine
  rw [hip, Nat.zero_add, Nat.add_zero]

/-! ## Any number of parts -/

/-- Run parts of a program one after the other. Each of them has the steps that the ones
before have left over, and a fault is reported with its place in the whole program. -/
def runParts (m : Machine) : List (List Char) → (limit : Nat) → Machine × Except Fault Unit
  | [], _ => (m, .ok ())
  | part :: parts, limit =>
    match m.run part limit with
    | (m', .ok ()) =>
      endBehind part.length (m.steps part limit) (m'.runParts parts (limit - m.steps part limit))
    | (m', .error fault) => (m', .error fault)

theorem run_nil (m : Machine) (limit : Nat) : m.run [] limit = (m, .ok ()) := by
  have hload : Loaded.ofCode [] = .ok ⟨#[], #[]⟩ := rfl
  rw [run_of_ofCode hload]
  exact runFrom_of_size_le limit m (Nat.le_refl 0)

/-- Running balanced parts one after the other is running the whole program. -/
theorem run_flatten {parts : List (List Char)} (hparts : ∀ part ∈ parts, Balanced part)
    (m : Machine) (limit : Nat) : m.run parts.flatten limit = m.runParts parts limit := by
  -- induction on the parts, with machine and limit free: the rest runs on what the first part
  -- has left, with the steps that are left
  induction parts generalizing m limit with
  | nil => exact run_nil m limit
  | cons part parts ih =>
      rcases List.forall_mem_cons.1 hparts with ⟨hpart, hrest⟩
      have hflatten := Brackets.balanced_flatten hrest
      rw [List.flatten_cons, runParts]
      rcases hrun : m.run part limit with ⟨m', fault | _⟩
      · exact run_append_of_error hpart hflatten hrun
      · -- what the part has left of the limit goes to the parts behind it
        rcases returnsIn_of_run hrun with ⟨hreturns, hle⟩
        have happend := run_append_of_returnsIn hpart hflatten hreturns
          (limit - m.steps part limit)
        rw [Nat.add_sub_cancel' hle, ih hrest] at happend
        exact happend

/-- A program that returns does so after the number of its steps. With that many steps more,
a program that stands behind it ends as it does alone on the machine that is left, but for
its place in what is reported. And so the program for a line, before the pass, runs
segment by segment, whatever machine it finds. -/
theorem run_in_parts :
    (∀ (m m' : Machine) (code : List Char) (limit : Nat), m.run code limit = (m', .ok ()) →
      m.ReturnsIn code (m.steps code limit) m') ∧
    (∀ (m m' : Machine) (code more : List Char) (steps limit : Nat), Balanced code →
      Balanced more → m.ReturnsIn code steps m' →
      m.run (code ++ more) (steps + limit) =
        ((m'.run more limit).1,
          (m'.run more limit).2.mapError (Fault.behind code.length steps))) ∧
    ∀ (m : Machine) (text : String) (limit : Nat), m.run (Code.rawProgram text) limit =
      m.runParts ((Text.deltas (Text.units text)).map Code.segmentBy) limit := by
  refine ⟨?_, ?_, ?_⟩
  · intro m m' code limit hrun
    exact (returnsIn_of_run hrun).1
  · intro m m' code more steps limit hcode hmore h
    exact run_append_of_returnsIn hcode hmore h limit
  · intro m text limit
    -- the program before the pass is its segments, each of them balanced
    have hparts : ∀ part ∈ (Text.deltas (Text.units text)).map Code.segmentBy,
        Balanced part := by
      intro part hpart
      rcases List.mem_map.1 hpart with ⟨delta, -, rfl⟩
      exact Code.balanced_segmentBy delta
    rw [← run_flatten hparts]
    rfl

/-- A loop that leaves two in the second cell, and behind it a program that prints them and
then leaves the tape at its own fourth character, the twelfth of both. -/
theorem run_in_parts_underflow :
    (fresh .unbounded).ReturnsIn "++[>+<-]".toList 13 ⟨.unbounded, #[0, 2], 0, #[], 0, 2⟩ ∧
      (fresh .unbounded).run ("++[>+<-]".toList ++ ">.<<".toList) (13 + 4) =
        (⟨.unbounded, #[0, 2], 0, #[2], 0, 2⟩, .error (.pointerUnderflow 11)) ∧
      (fresh .unbounded).run ("++[>+<-]".toList ++ ">.<<".toList) (13 + 2) =
        (⟨.unbounded, #[0, 2], 1, #[2], 0, 2⟩, .error (.stepLimitExceeded 15)) := by
  have hloop : Balanced "++[>+<-]".toList := by decide
  have hprint : Balanced ">.<<".toList := by decide
  have hrun : (fresh .unbounded).run "++[>+<-]".toList 20 =
      (⟨.unbounded, #[0, 2], 0, #[], 0, 2⟩, .ok ()) := rfl
  have hsteps : (fresh .unbounded).steps "++[>+<-]".toList 20 = 13 := rfl
  have hreturns := run_in_parts.1 _ _ _ _ hrun
  rw [hsteps] at hreturns
  refine ⟨hreturns, ?_, ?_⟩
  · exact run_in_parts.2.1 _ _ _ _ 13 4 hloop hprint hreturns
  · exact run_in_parts.2.1 _ _ _ _ 13 2 hloop hprint hreturns

end Machine

end TapeText
