import TapeText.Proofs.Code.Pieces
import TapeText.Proofs.Execution.Site

/-!
# TapeText.Proofs.Execution.Segment — a segment at work

The loop of a segment counts its counter down to zero and moves the register by
one stride per round, so at every moment the register is between the value it
had before the segment and the value it is about to print, up to the correction
of the plan. The rest of a segment is written out.

* `leads_loop` — all rounds of a loop, by induction on the counter;
* `leads_move` — the move of a segment, short or long;
* `leads_piece` — a whole segment, or what the pass has left of it.
-/

namespace TapeText.Execution

open Brackets (Balanced)
open Code (Direction steps stepsBy isShort loopBody loopMove move piece length_loopBody)
open Loop (Plan)

/-! ## Brackets of a loaded program -/

/-- The closing bracket ahead knows where its loop begins. -/
theorem partner_of_ahead {program : Loaded} {code body back : List Char} {ip : Nat}
    (h : Loaded.ofCode code = .ok program) (hbody : Balanced body)
    (hahead : program.ahead ip = '[' :: (body ++ ']' :: back)) :
    program.partners.getD (ip + 1 + body.length) none = some ip := by
  have hdrop := (Loaded.ahead_eq_drop h ip).symm.trans hahead
  -- there is code ahead, so the position is inside the program
  have hlt : ip < code.length := by
    rw [← Nat.not_le]
    intro hle
    rw [List.drop_of_length_le hle] at hdrop
    simp at hdrop
  have hlength : (code.take ip).length = ip := by
    rw [List.length_take]
    exact Nat.min_eq_left (Nat.le_of_lt hlt)
  have hcode : code = code.take ip ++ '[' :: (body ++ ']' :: back) := by
    rw [← hdrop, List.take_append_drop]
  have hpartner := (Loaded.partners_of_loop h hbody hcode).2
  rwa [hlength] at hpartner

namespace Site

variable {site : Site} {ip : Nat} {back code : List Char} {v : View}

/-- On the counter, a bracket tests the counter. -/
theorem current_eq_counter {m : Machine} (hm : Shows site.base v m) (hwithin : site.Within v)
    (hon : v.onRegister = false) : m.current = v.counter := by
  have hcurrent : v.current = v.counter := by
    unfold View.current
    rw [hon]
    rfl
  have hnonneg := hwithin.counter_nonneg
  have hle := hwithin.counter_le
  have hrounds := site.rounds_le
  rw [← hcurrent]
  -- the counter is a unit, so cells of both kinds hold it as it is
  apply hm.current_eq_of_unit
  rw [hcurrent]
  omega

/-- A bracket leads to where the counter sends it. -/
theorem leads_bracket {c : Char} {target : Nat} (h : site.Reads ip (c :: back))
    (hc : c = '[' ∨ c = ']') (hwithin : site.Within v) (hon : v.onRegister = false)
    (hnext : ∀ m : Machine, m.current = v.counter →
      m.next c ip (site.program.partners.getD ip none) = target) :
    site.Leads 1 ⟨ip, v⟩ ⟨target, v⟩ := by
  intro m hm
  -- a bracket changes nothing but the position
  have hallows : site.Allows c v := by
    refine ⟨hwithin, ?_, ?_⟩
    · intro _
      exact hon
    · intro hprint
      rcases hc with rfl | rfl <;> exact absurd hprint (by decide)
  have hfault : m.fault? c ip = none := by rcases hc with rfl | rfl <;> rfl
  have hexecute : m.execute c = m := by rcases hc with rfl | rfl <;> rfl
  have hstep := @Loaded.step?_eq_some site.program ⟨ip, m⟩ c h.getElem? hfault
  have hcurrent := current_eq_counter hm hwithin hon
  rw [hexecute, hnext m hcurrent] at hstep
  exact ⟨m, .single (h.busy hm hallows) hstep, hm⟩

/-- A loop is entered with the counter above zero. -/
theorem leads_enter (h : site.Reads ip ('[' :: back)) (hwithin : site.Within v)
    (hon : v.onRegister = false) (hcounter : v.counter ≠ 0) :
    site.Leads 1 ⟨ip, v⟩ ⟨ip + 1, v⟩ := by
  apply leads_bracket h (.inl rfl) hwithin hon
  intro m hm
  exact if_neg (by rw [hm]; exact hcounter)

/-- A loop is left with the counter at zero. -/
theorem leads_leave (h : site.Reads ip (']' :: back)) (hwithin : site.Within v)
    (hon : v.onRegister = false) (hcounter : v.counter = 0) :
    site.Leads 1 ⟨ip, v⟩ ⟨ip + 1, v⟩ := by
  apply leads_bracket h (.inr rfl) hwithin hon
  intro m hm
  exact if_pos (by rw [hm]; exact hcounter)

/-- Another round begins behind the opening bracket. -/
theorem leads_again {start : Nat} (h : site.Reads ip (']' :: back)) (hwithin : site.Within v)
    (hon : v.onRegister = false) (hcounter : v.counter ≠ 0)
    (hpartner : site.program.partners.getD ip none = some start) :
    site.Leads 1 ⟨ip, v⟩ ⟨start + 1, v⟩ := by
  apply leads_bracket h (.inr rfl) hwithin hon
  intro m hm
  rw [hpartner]
  exact if_neg (by rw [hm]; exact hcounter)

/-! ## Loops -/

variable {direction : Direction} {stride k : Nat} {wide : Bool} {register : Int}
variable {printed : Array UInt16}

/-- One round moves the register by a stride and counts down by one. -/
theorem leads_round (h : site.Reads ip (loopBody direction stride))
    (hstart : site.Within ⟨false, wide, (k : Int) + 1, register, printed⟩)
    (hend : site.Within ⟨false, true, k, register + direction.sign * stride, printed⟩) :
    site.Leads (stride + 3) ⟨ip, ⟨false, wide, (k : Int) + 1, register, printed⟩⟩
      ⟨ip + (stride + 3), ⟨false, true, k, register + direction.sign * stride, printed⟩⟩ := by
  have hsteps := h.tail.left
  have hback := h.tail.right
  rw [Code.length_steps] at hback
  -- the counter keeps its value while the register moves
  have hopened : site.Within ⟨true, true, (k : Int) + 1, register, printed⟩ :=
    ⟨hstart.counter_nonneg, hstart.counter_le, hstart.low_le, hstart.le_high⟩
  have hmoved : site.Within
      ⟨true, true, (k : Int) + 1, register + direction.sign * stride, printed⟩ :=
    ⟨hstart.counter_nonneg, hstart.counter_le, hend.low_le, hend.le_high⟩
  have hclosed : site.Within
      ⟨false, true, (k : Int) + 1, register + direction.sign * stride, printed⟩ :=
    ⟨hstart.counter_nonneg, hstart.counter_le, hend.low_le, hend.le_high⟩
  have hright := leads_toRegister h hstart rfl
  have hmove := leads_steps hsteps hopened hmoved
  have hleft := leads_toCounter hback hmoved rfl
  have hdown := @leads_symbol site _ [] _ .down hback.tail hclosed
  have hcount : (View.adjust
      ⟨false, true, (k : Int) + 1, register + direction.sign * stride, printed⟩ (-1)) =
      ⟨false, true, k, register + direction.sign * stride, printed⟩ := by
    show View.mk _ _ ((k : Int) + 1 + -1) _ _ = _
    rw [Int.add_neg_cancel_right]
  have hround := ((hright.trans hmove).trans hleft).trans hdown
  have hposition : ip + 1 + stride + 1 + 1 = ip + (stride + 3) := by omega
  have hlength : 1 + stride + 1 + 1 = stride + 3 := by omega
  show site.Leads _ _ ⟨_, _⟩
  rw [← hcount, ← hposition]
  exact hround.cast hlength

/-- A view is within the bounds if its two values are, wherever its pointer
is. -/
theorem within_of_bounds {value : Int} (hcount : k ≤ site.rounds) (hlow : site.low ≤ value)
    (hhigh : value ≤ site.high) (on wide : Bool) :
    site.Within ⟨on, wide, k, value, printed⟩ where
  counter_nonneg := Int.natCast_nonneg k
  counter_le := Int.ofNat_le.2 hcount
  low_le := hlow
  le_high := hhigh

/-- The register stays within the bounds between two places that do. -/
theorem Within.register_between {on on' wide wide' : Bool} {a b c i j : Int}
    (h : site.Within ⟨on, wide, i, a, printed⟩) (hend : site.Within ⟨on', wide', j, c, printed⟩)
    (hcount : k ≤ site.rounds) (hbetween : (a ≤ b ∧ b ≤ c) ∨ (c ≤ b ∧ b ≤ a))
    (on'' wide'' : Bool) : site.Within ⟨on'', wide'', k, b, printed⟩ := by
  have hlow : site.low ≤ a := h.low_le
  have hhigh : a ≤ site.high := h.le_high
  have hlow' : site.low ≤ c := hend.low_le
  have hhigh' : c ≤ site.high := hend.le_high
  exact within_of_bounds hcount (by omega) (by omega) on'' wide''

/-- One round and all rounds go the same way. -/
theorem sign_mul_same (direction : Direction) (stride count : Nat) :
    (0 ≤ direction.sign * (stride : Int) ∧ 0 ≤ direction.sign * (stride : Int) * count) ∨
      (direction.sign * (stride : Int) ≤ 0 ∧ direction.sign * (stride : Int) * count ≤ 0) := by
  have hcount : (0 : Int) ≤ count := Int.natCast_nonneg count
  -- the number of rounds is never negative, so the direction decides
  cases direction with
  | up =>
      have hround : (0 : Int) ≤ Direction.up.sign * stride :=
        Int.mul_nonneg (by decide) (Int.natCast_nonneg stride)
      exact .inl ⟨hround, Int.mul_nonneg hround hcount⟩
  | down =>
      have hround : Direction.down.sign * (stride : Int) ≤ 0 :=
        Int.mul_nonpos_of_nonpos_of_nonneg (by decide) (Int.natCast_nonneg stride)
      exact .inr ⟨hround, Int.mul_nonpos_of_nonpos_of_nonneg hround hcount⟩

/-- All rounds of a loop, from behind its opening bracket. -/
theorem leads_rounds (h : site.Reads ip (loopBody direction stride ++ ']' :: back))
    (hpartner : site.program.partners.getD (ip + (stride + 3)) none = some (ip - 1))
    (hip : 0 < ip)
    (hstart : site.Within ⟨false, wide, (k : Int) + 1, register, printed⟩)
    (hend : site.Within
      ⟨false, true, 0, register + direction.sign * stride * ((k : Int) + 1), printed⟩) :
    site.Leads ((k + 1) * (stride + 4)) ⟨ip, ⟨false, wide, (k : Int) + 1, register, printed⟩⟩
      ⟨ip + (stride + 4),
        ⟨false, true, 0, register + direction.sign * stride * ((k : Int) + 1), printed⟩⟩ := by
  have hbody := h.left
  have hclose := h.right
  rw [length_loopBody] at hclose
  have hcount : (k : Int) + 1 ≤ site.rounds := hstart.counter_le
  -- induction on the rounds that are left, with the register free: it has moved by a stride
  -- when the rest begins
  induction k generalizing wide register with
  | zero =>
      -- the last round: the counter is at zero behind it
      have hone : direction.sign * (stride : Int) * (((0 : Nat) : Int) + 1) =
          direction.sign * stride := Int.mul_one _
      rw [hone] at hend ⊢
      have hround := @leads_round site ip direction stride 0 wide register printed
        hbody hstart hend
      have hleave := leads_leave hclose hend rfl rfl
      exact (hround.trans hleave).cast (by omega)
  | succ k ih =>
      -- not the last round: the closing bracket leads back to behind its partner
      have hsame := sign_mul_same direction stride (k + 1)
      rw [Int.natCast_succ] at hsame
      have hsum : register + direction.sign * stride * (((k + 1 : Nat) : Int) + 1) =
          register + direction.sign * stride + direction.sign * stride * ((k : Int) + 1) := by
        rw [Int.natCast_succ, Int.mul_add _ ((k : Int) + 1), Int.mul_one]
        omega
      rw [hsum] at hend ⊢
      -- the register behind one round is between the start and the end
      have hmiddle : site.Within ⟨false, true, ((k + 1 : Nat) : Int),
          register + direction.sign * stride, printed⟩ :=
        hstart.register_between hend (by omega) (by omega) false true
      have hround := leads_round hbody hstart hmiddle
      have hagain := leads_again hclose hmiddle rfl (Int.ofNat_ne_zero.2 (Nat.succ_ne_zero k))
        hpartner
      rw [Nat.sub_add_cancel hip] at hagain
      have hrest := ih hmiddle hend (by omega)
      apply ((hround.trans hagain).trans hrest).cast
      rw [Nat.succ_mul (k + 1)]
      omega

/-- The closing bracket of a loop leads back to its opening one. -/
theorem partner_of_reads {program : List Char}
    (hload : Loaded.ofCode program = .ok site.program)
    (h : site.Reads ip ('[' :: (loopBody direction stride ++ ']' :: back))) :
    site.program.partners.getD (ip + 1 + (stride + 3)) none = some ip := by
  rcases h.ahead with ⟨rest, hrest⟩
  have hbody := Code.balanced_loopBody direction stride
  have hahead : site.program.ahead ip =
      '[' :: (loopBody direction stride ++ ']' :: (back ++ rest)) := by
    rw [hrest, List.cons_append, List.append_assoc, List.cons_append]
  have hclose := partner_of_ahead hload hbody hahead
  rwa [length_loopBody] at hclose

/-- A loop, from one of its brackets to behind the other. -/
theorem leads_loop {program : List Char} (hload : Loaded.ofCode program = .ok site.program)
    (h : site.Reads ip ('[' :: (loopBody direction stride ++ ']' :: back))) (hk : 0 < k)
    (hstart : site.Within ⟨false, wide, k, register, printed⟩)
    (hend : site.Within
      ⟨false, true, 0, register + direction.sign * stride * (k : Int), printed⟩) :
    site.Leads (1 + k * (stride + 4)) ⟨ip, ⟨false, wide, k, register, printed⟩⟩
      ⟨ip + 1 + (stride + 4),
        ⟨false, true, 0, register + direction.sign * stride * (k : Int), printed⟩⟩ := by
  cases k with
  -- a plan always has a round, so the loop is never skipped
  | zero => exact absurd hk (Nat.lt_irrefl 0)
  | succ k =>
      have henter := leads_enter h hstart rfl (Int.ofNat_ne_zero.2 (Nat.succ_ne_zero k))
      have hpartner := partner_of_reads hload h
      have hrounds := leads_rounds h.tail hpartner (Nat.succ_pos ip) hstart hend
      exact henter.trans hrounds

/-- The counter counts up from zero. -/
theorem leads_count (h : site.Reads ip (steps .up k))
    (hstart : site.Within ⟨false, wide, (0 : Nat), register, printed⟩)
    (hend : site.Within ⟨false, wide, k, register, printed⟩) :
    site.Leads k ⟨ip, ⟨false, wide, (0 : Nat), register, printed⟩⟩
      ⟨ip + k, ⟨false, wide, k, register, printed⟩⟩ := by
  have hcount : View.adjust ⟨false, wide, (0 : Nat), register, printed⟩
      (Direction.up.sign * k) = ⟨false, wide, k, register, printed⟩ := by
    show View.mk _ _ (((0 : Nat) : Int) + 1 * (k : Int)) _ _ = _
    rw [Int.one_mul, Int.natCast_zero, Int.zero_add]
  rw [← hcount] at hend ⊢
  exact leads_steps h hstart hend

/-! ## Moves -/

variable {delta : Int}

/-- How many steps a loop and its correction take. -/
def loopCost (plan : Plan) : Nat :=
  plan.rounds * plan.stride + 5 * plan.rounds + plan.correction.natAbs + 2

def moveCost (opened : Bool) (delta : Int) : Nat :=
  if isShort delta then (if opened then 0 else 1) + delta.natAbs
  else loopCost (.best delta.natAbs)

/-- The bounds of a site leave room around a move: a loop may overshoot by the
reach of its correction. -/
structure Spans (site : Site) (register delta : Int) : Prop where
  from_low : site.low + Plan.reach ≤ register
  from_high : register + Plan.reach ≤ site.high
  to_low : site.low + Plan.reach ≤ register + delta
  to_high : register + delta + Plan.reach ≤ site.high
  rounds_le : (Plan.best delta.natAbs).rounds ≤ site.rounds

/-- Any register near the end of a move is within the bounds. -/
theorem Spans.within (h : site.Spans register delta) {value : Int}
    (hnear : (register + delta - value).natAbs ≤ Plan.reach) (hcount : k ≤ site.rounds)
    (on wide : Bool) : site.Within ⟨on, wide, k, value, printed⟩ := by
  have hlow := h.to_low
  have hhigh := h.to_high
  exact within_of_bounds hcount (by omega) (by omega) on wide

/-- The register at the start of a move is within the bounds. -/
theorem Spans.within_start (h : site.Spans register delta) (hcount : k ≤ site.rounds)
    (on wide : Bool) : site.Within ⟨on, wide, k, register, printed⟩ := by
  have hlow := h.from_low
  have hhigh := h.from_high
  exact within_of_bounds hcount (by omega) (by omega) on wide

theorem leads_stepsBy {amount : Int} (h : site.Reads ip (stepsBy amount))
    (hwithin : site.Within v) (hend : site.Within (v.adjust amount)) :
    site.Leads amount.natAbs ⟨ip, v⟩ ⟨ip + amount.natAbs, v.adjust amount⟩ := by
  have hamount := Direction.sign_ofDelta_mul_natAbs amount
  have hsteps := @leads_steps site ip v (.ofDelta amount) amount.natAbs h hwithin
  rw [hamount] at hsteps
  exact hsteps hend

theorem length_stepsBy (amount : Int) : (stepsBy amount).length = amount.natAbs :=
  Code.length_steps _ _

theorem natAbs_sign_mul (direction : Direction) (amount : Int) :
    (direction.sign * amount).natAbs = amount.natAbs := by
  cases direction with
  | up => exact congrArg Int.natAbs (Int.one_mul amount)
  | down => rw [Direction.sign, Int.neg_one_mul, Int.natAbs_neg]

/-- A loop is the count, the body with its three other instructions and two brackets,
the step to the register and the correction. -/
theorem length_loopMove (plan : Plan) (direction : Direction) :
    (loopMove plan direction).length =
      plan.rounds + (plan.stride + 6) + plan.correction.natAbs := by
  unfold loopMove
  simp only [List.length_append, List.length_cons, length_loopBody, Code.length_steps,
    length_stepsBy, natAbs_sign_mul]
  omega

/-- Where a loop leaves the register: what is missing is the correction. -/
theorem loop_target {plan : Plan} (h : plan.Serves delta.natAbs) :
    (Direction.ofDelta delta).sign * (plan.stride : Int) * plan.rounds =
      delta - (Direction.ofDelta delta).sign * plan.correction := by
  have hproduct := h.product
  have hdelta := Direction.sign_ofDelta_mul_natAbs delta
  rw [Int.mul_assoc, Int.mul_comm (plan.stride : Int), hproduct, Int.mul_sub, hdelta]

/-- The move of a long segment, from the counter to the register. -/
theorem leads_loopMove {plan : Plan} {program : List Char}
    (hload : Loaded.ofCode program = .ok site.program)
    (hplan : plan = .best delta.natAbs) (hspans : site.Spans register delta)
    (h : site.Reads ip (loopMove plan (.ofDelta delta))) :
    site.Leads (loopCost plan) ⟨ip, ⟨false, wide, 0, register, printed⟩⟩
      ⟨ip + (loopMove plan (.ofDelta delta)).length,
        ⟨true, true, 0, register + delta, printed⟩⟩ := by
  have hserves := Plan.best_serves delta.natAbs
  have hrounds := hspans.rounds_le
  rw [← hplan] at hserves hrounds
  have htarget := loop_target hserves
  have hcorrection := natAbs_sign_mul (.ofDelta delta) plan.correction
  have hreach := hserves.correction_le
  unfold loopMove at h
  rw [length_loopMove, loopCost]
  -- only the distance of the correction matters from here on
  generalize (Direction.ofDelta delta).sign * plan.correction = correction at *
  have hopen := h.right
  rw [Code.length_steps] at hopen
  have hrest := hopen.tail.right.tail
  rw [length_loopBody] at hrest
  -- the views between the parts of the move
  have hstart : ∀ count ≤ plan.rounds,
      site.Within ⟨false, wide, (count : Nat), register, printed⟩ := by
    intro count hcount
    exact hspans.within_start (Nat.le_trans hcount hrounds) false wide
  have hlooped : ∀ on, site.Within
      ⟨on, true, (0 : Nat), register + (delta - correction), printed⟩ := by
    intro on
    exact hspans.within (by omega) (Nat.zero_le _) on true
  have hdone : site.Within
      ⟨true, true, (0 : Nat), register + (delta - correction) + correction, printed⟩ :=
    hspans.within (by omega) (Nat.zero_le _) true true
  -- count up, run the loop, go to the register and correct it
  have hcount := leads_count h.left (hstart 0 (Nat.zero_le _)) (hstart _ (Nat.le_refl _))
  have hloop := @leads_loop site _ _ (.ofDelta delta) plan.stride plan.rounds wide register
    printed program hload hopen hserves.rounds_pos (hstart _ (Nat.le_refl _))
  rw [htarget] at hloop
  have hright := leads_toRegister hrest (hlooped false) rfl
  have hcorrect := leads_stepsBy hrest.tail (hlooped true) hdone
  have hmove := ((hcount.trans (hloop (hlooped false))).trans hright).trans hcorrect
  have hposition : ip + plan.rounds + 1 + (plan.stride + 3) + 1 + 1 + correction.natAbs =
      ip + (plan.rounds + (plan.stride + 6) + plan.correction.natAbs) := by omega
  have hregister : register + (delta - correction) + correction = register + delta := by omega
  rw [hposition] at hmove
  rw [← hregister]
  apply hmove.cast
  rw [Nat.mul_add]
  omega

/-- The move of a segment, from wherever it finds the pointer. -/
theorem leads_move {opened : Bool} {program : List Char}
    (hload : Loaded.ofCode program = .ok site.program) (hspans : site.Spans register delta)
    (hopened : opened = true → isShort delta = true ∧ wide = true)
    (h : site.Reads ip (move opened delta)) :
    site.Leads (moveCost opened delta) ⟨ip, ⟨opened, wide, 0, register, printed⟩⟩
      ⟨ip + (move opened delta).length, ⟨true, true, 0, register + delta, printed⟩⟩ := by
  have hfrom : ∀ on wide, site.Within ⟨on, wide, (0 : Nat), register, printed⟩ :=
    hspans.within_start (Nat.zero_le _)
  have hto : site.Within ⟨true, true, (0 : Nat), register + delta, printed⟩ :=
    hspans.within (by omega) (Nat.zero_le _) true true
  unfold move at h ⊢
  unfold moveCost
  by_cases hshort : isShort delta = true
  · rw [if_pos hshort] at h ⊢
    rw [if_pos hshort]
    cases opened with
    | true =>
        -- the pass has dropped the step to the register: the pointer is there already
        rcases hopened rfl with ⟨-, rfl⟩
        have hsteps := leads_stepsBy h.right (hfrom true true) hto
        rw [List.length_append, length_stepsBy]
        show site.Leads (0 + delta.natAbs) _ ⟨ip + (0 + delta.natAbs), _⟩
        rw [Nat.zero_add]
        exact hsteps
    | false =>
        have hright := leads_toRegister h.head (hfrom false wide) rfl
        have hsteps := leads_stepsBy h.tail (hfrom true true) hto
        rw [List.length_append, length_stepsBy, ← Nat.add_assoc]
        exact hright.trans hsteps
  · -- a loop always begins on the counter
    have hclosed : opened = false := by
      cases opened with
      | false => rfl
      | true => exact absurd (hopened rfl).1 hshort
    subst hclosed
    rw [if_neg hshort] at h ⊢
    rw [if_neg hshort]
    exact leads_loopMove hload rfl hspans h

/-! ## Pieces -/

def pieceCost (opened leaves : Bool) (delta : Int) : Nat :=
  moveCost opened delta + if leaves then 1 else 2

/-- Behind the move there is the print, and the step back unless the pass has dropped
it. -/
theorem length_piece (opened leaves : Bool) (delta : Int) :
    (piece opened leaves delta).length =
      (move opened delta).length + if leaves then 1 else 2 := by
  unfold piece
  cases leaves <;> simp

/-- A piece moves the register by its delta and prints it, if it is a unit
then. -/
theorem leads_piece {opened leaves : Bool} {program : List Char}
    (hload : Loaded.ofCode program = .ok site.program) (hspans : site.Spans register delta)
    (htarget : site.target = register + delta)
    (hopened : opened = true → isShort delta = true ∧ wide = true)
    (hunit : 0 ≤ site.base.kind.store (register + delta) ∧
      site.base.kind.store (register + delta) ≤ 65535)
    (h : site.Reads ip (piece opened leaves delta)) :
    site.Leads (pieceCost opened leaves delta) ⟨ip, ⟨opened, wide, 0, register, printed⟩⟩
      ⟨ip + (piece opened leaves delta).length,
        ⟨leaves, true, 0, register + delta,
          printed.push (site.base.kind.store (register + delta)).toNat.toUInt16⟩⟩ := by
  have hmove := @leads_move _ _ _ _ printed _ _ _ hload hspans hopened h.left
  have hto : ∀ shown, site.Within ⟨true, true, (0 : Nat), register + delta, shown⟩ := by
    intro shown
    exact hspans.within (by omega) (Nat.zero_le _) true true
  have hallows : site.Allows '.' ⟨true, true, (0 : Nat), register + delta, printed⟩ := by
    refine ⟨hto printed, ?_, ?_⟩
    · intro hbracket
      exact absurd hbracket (by decide)
    · intro _
      exact ⟨rfl, rfl, htarget.symm⟩
  have hprint := leads_print h.right hallows hunit
  rw [length_piece]
  unfold pieceCost
  cases leaves with
  | true => exact hmove.trans hprint
  | false =>
      have hprinted :=
        hto (printed.push (site.base.kind.store (register + delta)).toNat.toUInt16)
      -- unless the next segment is a short one, the pointer goes back
      have hleft := leads_toCounter h.right.tail hprinted rfl
      exact (hmove.trans hprint).trans hleft

end Site

end TapeText.Execution
