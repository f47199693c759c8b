import TapeText.Proofs.Code.Alphabet
import TapeText.Proofs.Code.Pieces

/-!
# TapeText.Proofs.Code.Shape — what programs look like

All programs follow one simple pattern, before and behind the pass. It is given
here as an automaton that reads a program instruction by instruction and gets
stuck where the pattern is broken. Whether the next move goes to the register or
to the counter, and whether a loop is open, can be told from the place the
automaton is at. What one instruction does to these two, a whole program does, so
all the rest follows from the automaton reading the program to its end.

* `Place`, `next?`, `walk` — the automaton;
* `alternate_of_walk`, `exists_stride_of_walk` — what a program that it reads
  looks like: moves and brackets alternate, and loops have one form;
* `walk_code` — it reads the programs for all lines;
* `shape_of_code` — so this is what they look like.
-/

namespace TapeText.Code

open Brackets

/-- How far a program has been read. -/
inductive Place where
  /-- On the counter, between loops. -/
  | counter
  /-- On the register, between loops. -/
  | register
  /-- Behind the bracket that opens a loop. -/
  | opened
  /-- On the register, in front of the stride. -/
  | entered
  /-- On the register, behind some steps of the stride. -/
  | striding (direction : Direction)
  /-- Back on the counter, behind the stride. -/
  | returned
  /-- Behind the step that counts down. -/
  | counted
deriving DecidableEq, Repr

/-- How one more instruction may go on. -/
def next? : Place → Char → Option Place
  | .counter, '+' => some .counter
  | .counter, '>' => some .register
  | .counter, '[' => some .opened
  | .register, '+' => some .register
  | .register, '-' => some .register
  | .register, '.' => some .register
  | .register, '<' => some .counter
  | .opened, '>' => some .entered
  | .entered, '+' => some (.striding .up)
  | .entered, '-' => some (.striding .down)
  | .striding .up, '+' => some (.striding .up)
  | .striding .down, '-' => some (.striding .down)
  | .striding _, '<' => some .returned
  | .returned, '-' => some .counted
  | .counted, ']' => some .counter
  | _, _ => none

/-- Where a program leads from a place, if it follows the pattern. -/
def walk (p : Place) (code : List Char) : Option Place := code.foldlM next? p

/-- How many moves to the register are ahead of those to the counter. -/
def Place.shift : Place → Nat
  | .register => 1
  | .entered => 1
  | .striding _ => 1
  | _ => 0

/-- How many loops are open. -/
def Place.depth : Place → Nat
  | .counter => 0
  | .register => 0
  | _ => 1

/-- Read from the left, the two characters come in turn, `first` before `second`. -/
def Alternate (first second : Char) (code : List Char) : Prop :=
  ∀ front, front <+: code →
    front.count first = front.count second ∨ front.count first = front.count second + 1

variable {p q r : Place} {c first second : Char} {code front back body rest : List Char}
  {stage : Stage} {opened : Bool} {delta : Int} {deltas : List Int}

/-! ## Reading -/

/-- The automaton takes one instruction and goes on. -/
theorem walk_cons_of_next? (h : next? p c = some q) (rest : List Char) :
    walk p (c :: rest) = walk q rest := by
  unfold walk
  rw [List.foldlM_cons, h]
  rfl

/-- If it reads a program it has read the first instruction. -/
theorem exists_next?_of_walk (h : walk p (c :: rest) = some r) :
    ∃ q, next? p c = some q ∧ walk q rest = some r := by
  unfold walk at h
  rw [List.foldlM_cons] at h
  exact Option.bind_eq_some_iff.1 h

/-- Two programs are read one behind the other. -/
theorem walk_append_of_walk (h : walk p front = some q) (back : List Char) :
    walk p (front ++ back) = walk q back := by
  unfold walk at h ⊢
  rw [List.foldlM_append, h]
  rfl

theorem exists_walk_of_append (h : walk p (front ++ back) = some r) :
    ∃ q, walk p front = some q ∧ walk q back = some r := by
  unfold walk at h
  rw [List.foldlM_append] at h
  exact Option.bind_eq_some_iff.1 h

/-! ## Moves and brackets in turn -/

/-- One instruction moves between the cells, or opens or closes a loop, exactly if
its two places say so. -/
theorem levels_of_next? (h : next? p c = some q) :
    p.shift + [c].count '>' = q.shift + [c].count '<' ∧
      p.depth + [c].count '[' = q.depth + [c].count ']' := by
  unfold next? at h
  -- one case for each line of the automaton; where it is stuck there is nothing to show
  split at h <;> simp only [Option.some.injEq, reduceCtorEq] at h
  all_goals
    subst h
    exact ⟨rfl, rfl⟩

theorem Place.shift_le_one (p : Place) : p.shift ≤ 1 := by
  cases p <;> simp [Place.shift]

theorem Place.depth_le_one (p : Place) : p.depth ≤ 1 := by
  cases p <;> simp [Place.depth]

section Level

variable {level : Place → Nat}
  (hstep : ∀ p c q, next? p c = some q →
    level p + [c].count first = level q + [c].count second)

include hstep

/-- What holds of one instruction holds of a whole program. -/
theorem count_of_walk (h : walk p code = some q) :
    level p + code.count first = level q + code.count second := by
  induction code generalizing p with
  | nil =>
      obtain rfl := Option.some.inj h
      rfl
  | cons c rest ih =>
      rcases exists_next?_of_walk h with ⟨r, hnext, hrest⟩
      -- the levels in between cancel
      have hhere := hstep p c r hnext
      have hmore := ih hrest
      have hcons : ∀ a, (c :: rest).count a = [c].count a + rest.count a := by
        intro a
        rw [← List.count_append]
        rfl
      rw [hcons first, hcons second]
      omega

/-- A program that is read from the lower level on never leaves two levels. -/
theorem alternate_of_walk (hone : ∀ p, level p ≤ 1) (hp : level p = 0)
    (h : walk p code = some q) : Alternate first second code := by
  intro front hfront
  obtain ⟨back, rfl⟩ := hfront
  rcases exists_walk_of_append h with ⟨r, hread, -⟩
  have hcount := count_of_walk hstep hread
  -- the level where the front ends is how far the two counts are apart
  have hlevel := hone r
  omega

end Level

/-! ## Loops -/

/-- A loop is opened on the counter, between loops. -/
theorem open_of_next? (h : next? p '[' = some q) : p = .counter ∧ q = .opened := by
  cases p <;> simp_all [next?]

/-- A loop is closed behind the step that counts down. -/
theorem close_of_next? (h : next? p ']' = some q) : p = .counted ∧ q = .counter := by
  cases p <;> simp_all [next?]

/-- The instructions of a loop. -/
theorem inside_of_next? (h : next? p c = some q) (hp : p.depth = 1) :
    (p = .opened ∧ c = '>' ∧ q = .entered) ∨
    (∃ direction : Direction, p = .entered ∧ c = direction.symbol ∧ q = .striding direction) ∨
    (∃ direction : Direction, p = .striding direction ∧ c = direction.symbol ∧
      q = .striding direction) ∨
    (∃ direction : Direction, p = .striding direction ∧ c = '<' ∧ q = .returned) ∨
    (p = .returned ∧ c = '-' ∧ q = .counted) ∨
    (p = .counted ∧ c = ']' ∧ q = .counter) := by
  unfold next? at h
  split at h <;> simp only [Option.some.injEq, reduceCtorEq] at h
  all_goals
    subst h
    simp_all [Place.depth, Direction.symbol]

/-- What remains of the body of a loop at a place in it. -/
def Place.Remaining : Place → List Char → Prop
  | .opened, code => ∃ direction stride, 0 < stride ∧ code = loopBody direction stride
  | .entered, code => ∃ direction stride, 0 < stride ∧ code = steps direction stride ++ ['<', '-']
  | .striding direction, code => ∃ stride, code = steps direction stride ++ ['<', '-']
  | .returned, code => code = ['-']
  | .counted, code => code = []
  | _, _ => False

/-- In front of an instruction, that instruction remains as well. -/
theorem remaining_of_next? (h : next? p c = some q) (hp : p.depth = 1) (hc : c ≠ ']')
    (hrest : q.Remaining rest) : p.Remaining (c :: rest) := by
  rcases inside_of_next? h hp with ⟨rfl, rfl, rfl⟩ | ⟨direction, rfl, rfl, rfl⟩ |
    ⟨direction, rfl, rfl, rfl⟩ | ⟨direction, rfl, rfl, rfl⟩ | ⟨rfl, rfl, rfl⟩ | ⟨-, hclose, -⟩
  · rcases hrest with ⟨direction, stride, hstride, rfl⟩
    exact ⟨direction, stride, hstride, rfl⟩
  · rcases hrest with ⟨stride, rfl⟩
    exact ⟨direction, stride + 1, Nat.succ_pos stride, rfl⟩
  · rcases hrest with ⟨stride, rfl⟩
    exact ⟨stride + 1, rfl⟩
  · obtain rfl : rest = ['-'] := hrest
    exact ⟨0, rfl⟩
  · obtain rfl : rest = [] := hrest
    rfl
  · exact absurd hclose hc

/-- From a place in a loop up to the bracket that closes it. -/
theorem remaining_of_walk (hbody : Balanced body) (hp : p.depth = 1)
    (h : walk p body = some .counted) : p.Remaining body := by
  induction hbody generalizing p with
  | nil =>
      obtain rfl := Option.some.inj h
      rfl
  | @other c rest hc _ ih =>
      rcases exists_next?_of_walk h with ⟨q, hnext, hrest⟩
      -- an instruction that is no bracket stays in the loop
      have hlevel := (levels_of_next? hnext).2
      rw [List.count_singleton, List.count_singleton] at hlevel
      have hq : q.depth = 1 := by simpa [hc.1, hc.2, hp] using hlevel.symm
      exact remaining_of_next? hnext hp hc.2 (ih hq hrest)
  | loop _ _ =>
      -- no loop is opened within a loop
      rcases exists_next?_of_walk h with ⟨q, hnext, -⟩
      obtain ⟨rfl, -⟩ := open_of_next? hnext
      exact absurd hp (by decide)

/-- All loops of a program that is read are of one form. -/
theorem exists_stride_of_walk (h : walk p (front ++ '[' :: (body ++ ']' :: back)) = some q)
    (hbody : Balanced body) :
    ∃ direction stride, 0 < stride ∧ body = loopBody direction stride := by
  rcases exists_walk_of_append h with ⟨r, -, hloop⟩
  rcases exists_next?_of_walk hloop with ⟨s, hopen, hrest⟩
  -- the places at both brackets are known, so the body leads from one to the other
  obtain ⟨-, rfl⟩ := open_of_next? hopen
  rcases exists_walk_of_append hrest with ⟨t, hread, hend⟩
  rcases exists_next?_of_walk hend with ⟨u, hclose, -⟩
  obtain ⟨rfl, -⟩ := close_of_next? hclose
  exact remaining_of_walk hbody rfl hread

/-! ## Programs for lines -/

/-- The place between two pieces. -/
def Place.between (onRegister : Bool) : Place := if onRegister then .register else .counter

/-- Steps lead on as long as one step leads nowhere else. -/
theorem walk_steps {direction : Direction} (h : next? p direction.symbol = some p) (count : Nat) :
    walk p (steps direction count) = some p := by
  induction count with
  | zero => rfl
  | succ count ih =>
      have hsteps : steps direction (count + 1) = direction.symbol :: steps direction count :=
        List.replicate_succ
      rw [hsteps, walk_cons_of_next? h]
      exact ih

theorem walk_stepsBy (delta : Int) : walk .register (stepsBy delta) = some .register := by
  apply walk_steps
  cases Direction.ofDelta delta <;> rfl

/-- The body of a loop is read if it moves the register at all. -/
theorem walk_loopBody (direction : Direction) {stride : Nat} (hstride : 0 < stride) :
    walk .opened (loopBody direction stride) = some .counted := by
  rcases Nat.exists_eq_add_of_lt hstride with ⟨k, rfl⟩
  have hsteps : steps direction (0 + k + 1) = direction.symbol :: steps direction (0 + k) :=
    List.replicate_succ
  have hfirst : next? .entered direction.symbol = some (.striding direction) := by
    cases direction <;> rfl
  have hmore : next? (.striding direction) direction.symbol = some (.striding direction) := by
    cases direction <;> rfl
  have hback : next? (.striding direction) '<' = some .returned := by
    cases direction <;> rfl
  -- the first step fixes the direction, the others follow it
  unfold loopBody
  rw [hsteps, walk_cons_of_next? (q := .entered) rfl, List.cons_append, walk_cons_of_next? hfirst,
    walk_append_of_walk (walk_steps hmore _), walk_cons_of_next? hback]
  rfl

/-- A loop and its correction lead from the counter to the register. -/
theorem walk_loopMove {plan : Loop.Plan} (hplan : 0 < plan.stride) (direction : Direction) :
    walk .counter (loopMove plan direction) = some .register := by
  have hcount : walk .counter (steps .up plan.rounds) = some .counter := walk_steps rfl _
  unfold loopMove
  rw [walk_append_of_walk hcount, walk_cons_of_next? (q := .opened) rfl,
    walk_append_of_walk (walk_loopBody direction hplan), walk_cons_of_next? (q := .counter) rfl,
    walk_cons_of_next? (q := .register) rfl]
  exact walk_stepsBy _

/-- So does a short move, unless the pointer is on the register already. -/
theorem walk_move (hopened : opened = true → isShort delta = true) :
    walk (.between opened) (move opened delta) = some .register := by
  unfold move
  split
  · cases opened with
    | true => exact walk_stepsBy delta
    | false => exact (walk_cons_of_next? rfl _).trans (walk_stepsBy delta)
  · next hlong =>
    -- only a short segment finds the pointer on the register
    have hclosed : opened = false := by
      cases opened with
      | false => rfl
      | true => exact absurd (hopened rfl) hlong
    rw [hclosed]
    exact walk_loopMove (Loop.Plan.best_serves _).stride_pos _

/-- A piece leads from the place it finds to the one it leaves. -/
theorem walk_piece (hopened : opened = true → isShort delta = true) (leaves : Bool) :
    walk (.between opened) (piece opened leaves delta) = some (.between leaves) := by
  unfold piece
  rw [walk_append_of_walk (walk_move hopened), walk_cons_of_next? (q := .register) rfl]
  cases leaves <;> rfl

/-- The rest of a program leads back to the counter. -/
theorem walk_pieces (hopened : opened = true → stage.joins deltas = true) :
    walk (.between opened) (pieces stage opened deltas).flatten = some .counter := by
  induction deltas generalizing opened with
  | nil =>
      cases opened with
      | false => rfl
      | true =>
          -- the last segment has come back to the counter
          have hjoins := hopened rfl
          rw [Stage.joins_nil] at hjoins
          exact absurd hjoins Bool.false_ne_true
  | cons delta deltas ih =>
      have hshort : opened = true → isShort delta = true := by
        intro h
        exact isShort_of_joins (hopened h)
      unfold pieces
      rw [List.flatten_cons, walk_append_of_walk (walk_piece hshort _)]
      exact ih id

/-- The automaton reads the programs for all lines. -/
theorem walk_code (stage : Stage) (text : String) :
    walk .counter (stage.code text) = some .counter := by
  rw [← flatten_parts]
  exact walk_pieces (fun h => absurd h Bool.false_ne_true)

/-! ## Counting prints and loops -/

/-- Steps are plus or minus and nothing else. -/
theorem count_steps (hc : c ≠ '+' ∧ c ≠ '-') (direction : Direction) (count : Nat) :
    (steps direction count).count c = 0 := by
  rw [List.count_eq_zero]
  intro hmem
  obtain rfl := List.eq_of_mem_replicate hmem
  cases direction with
  | up => exact hc.1 rfl
  | down => exact hc.2 rfl

/-- There is one print in a piece, behind its move. -/
theorem count_print_piece (opened leaves : Bool) (delta : Int) :
    (piece opened leaves delta).count '.' = 1 := by
  have hsteps := count_steps (c := '.') (by decide)
  have hmove : (move opened delta).count '.' = 0 := by
    unfold move loopMove loopBody stepsBy
    split
    · cases opened <;> simp [hsteps]
    · simp [hsteps]
  unfold piece
  rw [List.count_append, hmove]
  cases leaves <;> rfl

/-- There is a loop in a piece if its segment is long. -/
theorem count_open_piece (opened leaves : Bool) (delta : Int) :
    (piece opened leaves delta).count '[' = (decide (12 < delta.natAbs)).toNat := by
  have hsteps := count_steps (c := '[') (by decide)
  have hmove : (move opened delta).count '[' = (decide (12 < delta.natAbs)).toNat := by
    unfold move loopMove loopBody stepsBy isShort directLimit
    split
    · next hshort =>
      have hnot : ¬ 12 < delta.natAbs := by simpa using hshort
      cases opened <;> simp [hsteps, hnot]
    · next hlong =>
      have hover : 12 < delta.natAbs := by simpa using hlong
      simp [hsteps, hover]
  unfold piece
  rw [List.count_append, hmove]
  cases leaves <;> rfl

/-- If every piece has one instruction of a kind or none, the program has as many as
there are pieces with one. -/
theorem count_pieces {has : Int → Bool}
    (hpiece : ∀ opened leaves delta, (piece opened leaves delta).count c = (has delta).toNat) :
    (pieces stage opened deltas).flatten.count c = deltas.countP has := by
  induction deltas generalizing opened with
  | nil => rfl
  | cons delta deltas ih =>
      unfold pieces
      rw [List.flatten_cons, List.count_append, hpiece, ih, List.countP_cons, Nat.add_comm]
      cases has delta <;> rfl

/-- The characters of a program, before and behind the pass. -/
theorem code_subset (stage : Stage) (text : String) : stage.code text ⊆ instructions := by
  cases stage with
  | raw => exact rawProgram_subset text
  | finished => exact program_subset text

/-- Programs are written in seven characters. Their brackets are balanced and never
nested, one pair for each delta beyond twelve, and they print once for each unit and
once for the line feed. They move to the register and back in turn, and come back in
the end. Each of their loops goes to the register, makes one step or more there, all in
one direction, comes back and counts down. All this holds before and behind the pass. -/
theorem shape_of_code (stage : Stage) (text : String) :
    stage.code text ⊆ instructions ∧
    Balanced (stage.code text) ∧ Alternate '[' ']' (stage.code text) ∧
    (stage.code text).count '[' =
      (Text.deltas (Text.units text)).countP (fun delta => 12 < delta.natAbs) ∧
    (stage.code text).count '.' = (Text.unitsOfChars text.toList).length + 1 ∧
    (stage.code text).count '>' = (stage.code text).count '<' ∧
    Alternate '>' '<' (stage.code text) ∧
    ∀ front body back, stage.code text = front ++ '[' :: (body ++ ']' :: back) → Balanced body →
      ∃ symbol count, (symbol = '+' ∨ symbol = '-') ∧ 0 < count ∧
        body = '>' :: (List.replicate count symbol ++ ['<', '-']) := by
  have hwalk := walk_code stage text
  -- both levels of the automaton go up and down by one, so moves and brackets alternate
  have hshift := fun p c q (h : next? p c = some q) => (levels_of_next? h).1
  have hdepth := fun p c q (h : next? p c = some q) => (levels_of_next? h).2
  refine ⟨code_subset stage text, balanced_code stage text, ?_, ?_, ?_, ?_, ?_, ?_⟩
  · exact alternate_of_walk hdepth Place.depth_le_one rfl hwalk
  · rw [← flatten_parts]
    exact count_pieces count_open_piece
  · have hprints : (stage.parts text).flatten.count '.' =
        (Text.deltas (Text.units text)).countP fun _ => true := count_pieces count_print_piece
    rw [← flatten_parts, hprints, List.countP_true, Text.length_deltas]
    exact List.length_append
  · have hcount := count_of_walk hshift hwalk
    rwa [Nat.add_left_cancel_iff] at hcount
  · exact alternate_of_walk hshift Place.shift_le_one rfl hwalk
  · intro front body back hsplit hbody
    rw [hsplit] at hwalk
    rcases exists_stride_of_walk hwalk hbody with ⟨direction, stride, hstride, rfl⟩
    refine ⟨direction.symbol, stride, ?_, hstride, rfl⟩
    cases direction with
    | up => exact .inl rfl
    | down => exact .inr rfl

/-- The second of the two loops in the program for a letter: eight steps downwards. -/
theorem shape_of_code_second_loop :
    (Stage.finished.code "A" = "++++++++[>++++++++<-]>+.<+++++++".toList ++
        '[' :: (">--------<-".toList ++ ']' :: ">+.<".toList) ∧
      Balanced ">--------<-".toList) ∧
    ∃ symbol count, (symbol = '+' ∨ symbol = '-') ∧ 0 < count ∧
      ">--------<-".toList = '>' :: (List.replicate count symbol ++ ['<', '-']) := by
  have hcode : Stage.finished.code "A" = "++++++++[>++++++++<-]>+.<+++++++".toList ++
      '[' :: (">--------<-".toList ++ ']' :: ">+.<".toList) := by decide +kernel
  have hbody : Balanced ">--------<-".toList := by decide +kernel
  rcases shape_of_code .finished "A" with ⟨-, -, -, -, -, -, -, hloops⟩
  exact ⟨⟨hcode, hbody⟩, hloops _ _ _ hcode hbody⟩

end TapeText.Code
