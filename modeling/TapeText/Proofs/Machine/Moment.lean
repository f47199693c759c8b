import TapeText.Machine.Run

/-!
# TapeText.Proofs.Machine.Moment — a run step by step

A run is a sequence of moments: the position of the instruction that comes
next, and the machine it meets. The run function only tells what is left at
its end; here the moments in between get a name.

* `next_of_not_bracket`, `next_of_bracket` — where an instruction leads;
* `step?` — the moment after the next instruction, if it can be executed;
* `after` — the moment after a number of instructions, and `after_induction` for what
  holds at all of them;
* `Path` — a stretch of a run whose moments all satisfy a predicate, with its
  exact length;
* `runFrom_of_after`, `run_of_after`, `runFrom_cases`, `run_cases` — what moments say about
  runs, and the other way round;
* `Path.runFrom_eq`, `Path.run_eq_ok`, `Path.run_eq_error` — the run whose moments
  are a path.
-/

namespace TapeText

/-- A run between two instructions. -/
structure Moment where
  /-- The position of the instruction that comes next. -/
  ip : Nat
  machine : Machine

/-- Only brackets lead elsewhere than to the next instruction. -/
theorem Machine.next_of_not_bracket (m : Machine) {c : Char} (hc : c ≠ '[' ∧ c ≠ ']') {ip : Nat}
    {partner : Option Nat} : m.next c ip partner = ip + 1 := by
  unfold next
  split
  · exact absurd rfl hc.1
  · exact absurd rfl hc.2
  · rfl

/-- A bracket goes on to its neighbour or behind its partner, and where it stands has no
part in that. -/
theorem Machine.next_of_bracket (m : Machine) {c : Char} (hc : c = '[' ∨ c = ']') :
    (∀ ip k, m.next c ip (some k) = ip + 1) ∨ ∀ ip k, m.next c ip (some k) = k + 1 := by
  -- on zero the opening bracket jumps, on any other value the closing one
  by_cases hzero : m.current = 0
  · rcases hc with rfl | rfl
    · exact .inr fun _ _ => if_pos hzero
    · exact .inl fun _ _ => if_pos hzero
  · rcases hc with rfl | rfl
    · exact .inl fun _ _ => if_neg hzero
    · exact .inr fun _ _ => if_neg hzero

namespace Loaded

variable {program : Loaded} {s t u : Moment}

/-- The moment after the next instruction; none if the program is over or the
instruction cannot be executed. -/
def step? (program : Loaded) (s : Moment) : Option Moment :=
  match program.code[s.ip]? with
  | none => none
  | some c =>
    match s.machine.fault? c s.ip with
    | some _ => none
    | none =>
      some ⟨s.machine.next c s.ip (program.partners.getD s.ip none), s.machine.execute c⟩

/-- The moment after a number of instructions, if the run gets that far. -/
def after (program : Loaded) : Nat → Moment → Option Moment
  | 0, s => some s
  | n + 1, s => (program.after n s).bind program.step?

theorem step?_eq_some {c : Char} (hc : program.code[s.ip]? = some c)
    (hf : s.machine.fault? c s.ip = none) :
    program.step? s =
      some ⟨s.machine.next c s.ip (program.partners.getD s.ip none), s.machine.execute c⟩ := by
  unfold step?
  rw [hc]
  simp only [hf]

/-- A step executes the instruction at its position, and that has no fault. -/
theorem exists_of_step? (h : program.step? s = some t) :
    ∃ c, program.code[s.ip]? = some c ∧ s.machine.fault? c s.ip = none ∧
      t = ⟨s.machine.next c s.ip (program.partners.getD s.ip none), s.machine.execute c⟩ := by
  unfold step? at h
  split at h
  · simp at h
  · next c hc =>
    split at h
    · simp at h
    · next hf => exact ⟨c, hc, hf, (Option.some.inj h).symm⟩

/-- Behind the end of a program there is no step. -/
theorem step?_of_size_le (h : program.code.size ≤ s.ip) : program.step? s = none := by
  unfold step?
  rw [Array.getElem?_eq_none h]

/-- No step leads over a fault. -/
theorem step?_of_fault {c : Char} {fault : Fault} (hc : program.code[s.ip]? = some c)
    (hf : s.machine.fault? c s.ip = some fault) : program.step? s = none := by
  unfold step?
  rw [hc]
  simp only [hf]

/-! ## Counting instructions -/

/-- The first step may be taken off a number of steps as well as the last one. -/
theorem after_succ_of_step? (h : program.step? s = some t) (n : Nat) :
    program.after (n + 1) s = program.after n t := by
  induction n with
  | zero => exact h
  | succ n ih =>
      show (program.after (n + 1) s).bind program.step? = _
      rw [ih]
      rfl

theorem after_eq_none_of_le {n k : Nat} (h : program.after n s = none) (hk : n ≤ k) :
    program.after k s = none := by
  induction hk with
  | refl => exact h
  | @step k _ ih =>
      show (program.after k s).bind program.step? = none
      rw [ih]
      rfl

/-- Once a run has ended there are no more moments. -/
theorem after_eq_none_of_lt {n k : Nat} (h : program.after n s = some t)
    (hend : program.step? t = none) (hk : n < k) : program.after k s = none := by
  apply after_eq_none_of_le _ hk
  show (program.after n s).bind program.step? = none
  rw [h]
  exact hend

theorem after_succ_eq_some_iff {n : Nat} :
    program.after (n + 1) s = some t ↔
      ∃ r, program.after n s = some r ∧ program.step? r = some t :=
  Option.bind_eq_some_iff

/-- What holds at the first moment and is handed on by every step holds at every
moment. -/
theorem after_induction {Q : Moment → Prop} {n : Nat} (hstart : Q s)
    (hstep : ∀ k r u, program.after k s = some r → program.step? r = some u → Q r → Q u)
    (h : program.after n s = some t) : Q t := by
  -- induction on the number of steps, from behind: the last step hands on what the moment
  -- before has
  induction n generalizing t with
  | zero =>
      obtain rfl : s = t := Option.some.inj h
      exact hstart
  | succ n ih =>
      rcases after_succ_eq_some_iff.1 h with ⟨r, hr, hlast⟩
      exact hstep n r t hr hlast (ih hr)

/-! ## Moments and runs -/

/-- A run that gets to a moment is the run from there, with fewer steps
left. -/
theorem runFrom_of_after {n : Nat} (h : program.after n s = some t) (limit budget : Nat) :
    Machine.runFrom program limit (n + budget) s.ip s.machine =
      Machine.runFrom program limit budget t.ip t.machine := by
  -- induction on the number of steps; the last of them is the first of the budget that is left
  induction n generalizing t budget with
  | zero =>
      obtain rfl : s = t := Option.some.inj h
      rw [Nat.zero_add]
  | succ n ih =>
      rcases after_succ_eq_some_iff.1 h with ⟨r, hr, hstep⟩
      rcases exists_of_step? hstep with ⟨c, hc, hf, rfl⟩
      rw [Nat.add_assoc, Nat.add_comm 1 budget, ih hr (budget + 1)]
      exact Machine.runFrom_succ hc hf

/-- A run that gets to a moment goes on from there with what is left of its limit. -/
theorem run_of_after {m : Machine} {code : List Char} {n limit : Nat}
    (hload : ofCode code = .ok program) (h : program.after n ⟨0, m⟩ = some t) (hn : n ≤ limit) :
    m.run code limit = Machine.runFrom program limit (limit - n) t.ip t.machine := by
  have hrun := runFrom_of_after h limit (limit - n)
  rw [Nat.add_sub_cancel' hn] at hrun
  rw [Machine.run_of_ofCode hload]
  exact hrun

/-- How a run ends: it stops at one of its moments, because the program is
over, because its budget is used up there, or because the instruction there
has a fault. -/
theorem runFrom_cases (program : Loaded) (limit budget : Nat) (s : Moment) :
    ∃ n t, n ≤ budget ∧ program.after n s = some t ∧
      ((program.code.size ≤ t.ip ∧
          Machine.runFrom program limit budget s.ip s.machine = (t.machine, .ok ())) ∨
        (n = budget ∧ t.ip < program.code.size ∧
          Machine.runFrom program limit budget s.ip s.machine =
            (t.machine, .error (.stepLimitExceeded limit))) ∨
        (n < budget ∧
          ∃ c fault, program.code[t.ip]? = some c ∧ t.machine.fault? c t.ip = some fault ∧
            Machine.runFrom program limit budget s.ip s.machine =
              (t.machine, .error fault))) := by
  -- induction on the budget, with the first moment free
  induction budget generalizing s with
  | zero =>
      refine ⟨0, s, Nat.le_refl 0, rfl, ?_⟩
      rcases Nat.lt_or_ge s.ip program.code.size with hip | hip
      · exact Or.inr (Or.inl ⟨rfl, hip, Machine.runFrom_zero s.machine hip⟩)
      · exact Or.inl ⟨hip, Machine.runFrom_of_size_le 0 s.machine hip⟩
  | succ budget ih =>
      rcases hc : program.code[s.ip]? with _ | c
      · have hip : program.code.size ≤ s.ip := Array.getElem?_eq_none_iff.1 hc
        exact ⟨0, s, Nat.zero_le _, rfl,
          Or.inl ⟨hip, Machine.runFrom_of_size_le _ s.machine hip⟩⟩
      · rcases hf : s.machine.fault? c s.ip with _ | fault
        · -- the run goes on behind this instruction
          have hstep := step?_eq_some hc hf
          obtain ⟨n, t, hn, hafter, hcases⟩ := ih
            ⟨s.machine.next c s.ip (program.partners.getD s.ip none), s.machine.execute c⟩
          refine ⟨n + 1, t, Nat.succ_le_succ hn, ?_, ?_⟩
          · rw [after_succ_of_step? hstep, hafter]
          · rw [Machine.runFrom_succ hc hf]
            simpa only [Nat.add_right_cancel_iff, Nat.add_lt_add_iff_right] using hcases
        · exact ⟨0, s, Nat.zero_le _, rfl,
            Or.inr (Or.inr ⟨Nat.succ_pos _, c, fault, hc, hf, Machine.runFrom_fault hc hf⟩)⟩

/-- A program is rejected as it stands, or it is run up to one of its moments. -/
theorem run_cases (m : Machine) (code : List Char) (limit : Nat) :
    (∃ ip, ofCode code = .error (.unmatchedBracket ip) ∧
        m.run code limit = (m, .error (.unmatchedBracket ip))) ∨
      ∃ program n t, ofCode code = .ok program ∧ program.after n ⟨0, m⟩ = some t ∧
        (m.run code limit = (t.machine, .ok ()) ∨
          m.run code limit = (t.machine, .error (.stepLimitExceeded limit)) ∨
          ∃ c fault, t.machine.fault? c t.ip = some fault ∧
            m.run code limit = (t.machine, .error fault)) := by
  cases hpartners : Brackets.partners code with
  | error ip =>
      have hload : ofCode code = .error (.unmatchedBracket ip) := by rw [ofCode, hpartners]
      exact .inl ⟨ip, hload, Machine.run_of_ofCode_error hload m limit⟩
  | ok partners =>
      have hload : ofCode code = .ok ⟨code.toArray, partners⟩ := by rw [ofCode, hpartners]
      rw [Machine.run_of_ofCode hload]
      -- the table is there, so the run begins at the first position
      obtain ⟨n, t, -, hafter, hcases⟩ := runFrom_cases ⟨code.toArray, partners⟩ limit limit ⟨0, m⟩
      refine .inr ⟨_, n, t, hload, hafter, ?_⟩
      rcases hcases with ⟨-, hrun⟩ | ⟨-, -, hrun⟩ | ⟨-, c, fault, -, hfault, hrun⟩
      · exact .inl hrun
      · exact .inr (.inl hrun)
      · exact .inr (.inr ⟨c, fault, hfault, hrun⟩)

/-! ## Stretches of a run -/

/-- The run gets from one moment to another in exactly that many steps, and
every moment before the last one satisfies `P`. -/
inductive Path (program : Loaded) (P : Moment → Prop) : Nat → Moment → Moment → Prop where
  | refl (s : Moment) : Path program P 0 s s
  | step {n : Nat} {s t u : Moment} (hP : P s) (hstep : program.step? s = some t)
      (hrest : Path program P n t u) : Path program P (n + 1) s u

namespace Path

variable {P Q : Moment → Prop} {n k : Nat}

theorem single (hP : P s) (hstep : program.step? s = some t) : Path program P 1 s t :=
  .step hP hstep (.refl t)

theorem cast (h : Path program P n s t) (hn : n = k) : Path program P k s t := hn ▸ h

/-- Two paths one behind the other; their lengths add up. -/
theorem trans (h₁ : Path program P n s t) (h₂ : Path program P k t u) :
    Path program P (n + k) s u := by
  -- induction on the first path; the second one is what its last moment goes on with
  induction h₁ with
  | refl s => rwa [Nat.zero_add]
  | step hP hstep _ ih => exact (Path.step hP hstep (ih h₂)).cast (by omega)

/-- A path satisfies whatever its predicate implies. -/
theorem mono (h : Path program P n s t) (hPQ : ∀ r, P r → Q r) : Path program Q n s t := by
  induction h with
  | refl s => exact .refl s
  | step hP hstep _ ih => exact .step (hPQ _ hP) hstep ih

/-- The last moment of a path is met after the number of its steps. -/
theorem after_eq (h : Path program P n s t) : program.after n s = some t := by
  induction h with
  | refl s => rfl
  | step _ hstep _ ih => rw [after_succ_of_step? hstep, ih]

/-- Every moment before the last one is met, satisfies the predicate, and can
be left. -/
theorem exists_after (h : Path program P n s t) (hk : k < n) :
    ∃ r, program.after k s = some r ∧ P r ∧ (program.step? r).isSome := by
  -- induction on the path: the moment is the first one, or one of the rest
  induction h generalizing k with
  | refl s => omega
  | step hP hstep _ ih =>
      cases k with
      | zero => exact ⟨_, rfl, hP, by rw [hstep]; rfl⟩
      | succ k =>
          rcases ih (Nat.lt_of_succ_lt_succ hk) with ⟨r, hr, hPr, hsome⟩
          exact ⟨r, by rw [after_succ_of_step? hstep, hr], hPr, hsome⟩

/-- A moment of a run that comes to its end is on the way or the last one. -/
theorem cases_of_after (h : Path program P n s t) (hend : program.step? t = none)
    (hafter : program.after k s = some u) :
    (k < n ∧ P u ∧ (program.step? u).isSome) ∨ (k = n ∧ u = t) := by
  rcases Nat.lt_trichotomy k n with hlt | heq | hgt
  · rcases h.exists_after hlt with ⟨r, hr, hP, hsome⟩
    rw [hafter] at hr
    obtain rfl := Option.some.inj hr
    exact .inl ⟨hlt, hP, hsome⟩
  · subst heq
    rw [h.after_eq] at hafter
    exact .inr ⟨rfl, (Option.some.inj hafter).symm⟩
  · have hnone := after_eq_none_of_lt h.after_eq hend hgt
    -- there is no moment behind the last one
    rw [hafter] at hnone
    simp at hnone

/-- A run whose path leaves the program returns if its budget covers the path,
and otherwise stops where its budget is used up. -/
theorem runFrom_eq (h : Path program P n s t) (hend : program.code.size ≤ t.ip)
    (limit budget : Nat) :
    (n ≤ budget ∧
        Machine.runFrom program limit budget s.ip s.machine = (t.machine, .ok ())) ∨
      (budget < n ∧ ∃ r, program.after budget s = some r ∧
        Machine.runFrom program limit budget s.ip s.machine =
          (r.machine, .error (.stepLimitExceeded limit))) := by
  rcases Nat.lt_or_ge budget n with hlt | hle
  · -- the budget is used up on the way, in front of an instruction
    rcases h.exists_after hlt with ⟨r, hr, -, hsome⟩
    have hip : r.ip < program.code.size := by
      rw [← Nat.not_le]
      intro hsize
      rw [step?_of_size_le hsize] at hsome
      exact absurd hsome Bool.false_ne_true
    have hrun := runFrom_of_after hr limit 0
    rw [Nat.add_zero, Machine.runFrom_zero r.machine hip] at hrun
    exact .inr ⟨hlt, r, hr, hrun⟩
  · -- the rest of the budget is not needed
    rcases Nat.exists_eq_add_of_le hle with ⟨rest, rfl⟩
    rw [runFrom_of_after h.after_eq limit rest, Machine.runFrom_of_size_le rest t.machine hend]
    exact .inl ⟨hle, rfl⟩

/-- A program that is left by a path returns, if it may take as many steps. -/
theorem run_eq_ok {code : List Char} {m : Machine} {limit : Nat}
    (hload : ofCode code = .ok program) (h : Path program P n ⟨0, m⟩ t)
    (hend : program.code.size ≤ t.ip) (hlimit : n ≤ limit) :
    m.run code limit = (t.machine, .ok ()) := by
  rw [Machine.run_of_ofCode hload]
  rcases h.runFrom_eq hend limit limit with ⟨-, hrun⟩ | ⟨hlt, -⟩
  · exact hrun
  · exact absurd hlimit (Nat.not_le.2 hlt)

/-- A program whose path leads to a fault stops with it, if it may take one more step. -/
theorem run_eq_error {code : List Char} {m : Machine} {limit : Nat} {c : Char} {fault : Fault}
    (hload : ofCode code = .ok program) (h : Path program P n ⟨0, m⟩ t)
    (hc : program.code[t.ip]? = some c) (hf : t.machine.fault? c t.ip = some fault)
    (hlimit : n < limit) : m.run code limit = (t.machine, .error fault) := by
  obtain ⟨k, rfl⟩ := Nat.exists_eq_add_of_lt hlimit
  rw [Machine.run_of_ofCode hload, Nat.add_assoc n k 1]
  exact (runFrom_of_after h.after_eq _ (k + 1)).trans (Machine.runFrom_fault hc hf)

end Path

/-! ## The program ahead -/

/-- What is left of the program at a position. -/
def ahead (program : Loaded) (ip : Nat) : List Char := program.code.toList.drop ip

variable {ip : Nat} {c : Char} {front back : List Char}

theorem ahead_add (h : program.ahead ip = front ++ back) :
    program.ahead (ip + front.length) = back := by
  unfold ahead at h ⊢
  rw [← List.drop_drop, h, List.drop_left]

theorem getElem?_of_ahead (h : program.ahead ip = c :: back) : program.code[ip]? = some c := by
  unfold ahead at h
  rw [← Array.getElem?_toList, ← List.head?_drop, h]
  rfl

/-- An instruction that is no bracket leads to its neighbour. -/
theorem step?_of_ahead {m : Machine} (h : program.ahead ip = c :: back)
    (hc : c ≠ '[' ∧ c ≠ ']') (hf : m.fault? c ip = none) :
    program.step? ⟨ip, m⟩ = some ⟨ip + 1, m.execute c⟩ := by
  have hstep := @step?_eq_some program ⟨ip, m⟩ c (getElem?_of_ahead h) hf
  rw [hstep, m.next_of_not_bracket hc]

end Loaded

end TapeText
