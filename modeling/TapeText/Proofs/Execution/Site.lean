import TapeText.Code.Segment
import TapeText.Proofs.Execution.View
import TapeText.Proofs.Machine.Nesting
import TapeText.Proofs.Machine.Moment

/-!
# TapeText.Proofs.Execution.Site — a stretch of a program at work

A site is a stretch of a loaded program together with what holds while it is
running: how large the counter gets, between which values the register stays,
and which value is printed. The rules below lead from one spot of the site to
another, one for every instruction that a program for a line of text uses, with
the number of steps this takes.

* `Site.Busy` — the moments that a site allows;
* `Site.Reads` — the code at a position of the site;
* `Site.Leads` — every machine that shows the view of one spot runs to the
  other, through busy moments only.
-/

namespace TapeText.Execution

open Loaded (Path)
open Code (Direction steps)

/-- A stretch of a program, and what holds while it is running. -/
structure Site where
  program : Loaded
  /-- The machine that the program started on. -/
  base : Machine
  /-- The first position. -/
  first : Nat
  /-- The position behind the last one. -/
  last : Nat
  /-- The largest value of the counter. -/
  rounds : Nat
  /-- Cells of both kinds can count that far. -/
  rounds_le : rounds ≤ 65535
  /-- The smallest value of the register. -/
  low : Int
  /-- The largest value of the register. -/
  high : Int
  /-- The value that is printed. -/
  target : Int

/-- A position, and the view that a machine shows there. -/
structure Spot where
  ip : Nat
  view : View

namespace Site

/-- Counter and register are within the bounds of the site. -/
structure Within (site : Site) (v : View) : Prop where
  counter_nonneg : 0 ≤ v.counter
  counter_le : v.counter ≤ site.rounds
  low_le : site.low ≤ v.register
  le_high : v.register ≤ site.high

/-- The site allows an instruction on a view: brackets test the counter, and a
print finds the counter at zero and the register at its target. -/
structure Allows (site : Site) (c : Char) (v : View) : Prop extends site.Within v where
  on_counter : c = '[' ∨ c = ']' → v.onRegister = false
  on_target : c = '.' → v.onRegister = true ∧ v.counter = 0 ∧ v.register = site.target

/-- The site is at work. -/
structure Busy (site : Site) (s : Moment) : Prop where
  first_le : site.first ≤ s.ip
  lt_last : s.ip < site.last
  allows : ∃ c v, site.program.code[s.ip]? = some c ∧ Shows site.base v s.machine ∧
    site.Allows c v

/-- The code stands at that position of the site. -/
structure Reads (site : Site) (ip : Nat) (code : List Char) : Prop where
  first_le : site.first ≤ ip
  le_last : ip + code.length ≤ site.last
  ahead : ∃ back, site.program.ahead ip = code ++ back

/-- A machine that shows the first view gets to a machine that shows the second
one in exactly that many steps, and the site is at work until then. -/
def Leads (site : Site) (n : Nat) (s t : Spot) : Prop :=
  ∀ m, Shows site.base s.view m →
    ∃ m', Path site.program site.Busy n ⟨s.ip, m⟩ ⟨t.ip, m'⟩ ∧ Shows site.base t.view m'

variable {site : Site} {ip n k : Nat} {c : Char} {front back code : List Char} {v w : View}
variable {s t u : Spot}

namespace Reads

theorem left (h : site.Reads ip (front ++ back)) : site.Reads ip front := by
  rcases h.ahead with ⟨rest, hrest⟩
  have hlast := h.le_last
  rw [List.length_append] at hlast
  exact ⟨h.first_le, by omega, back ++ rest, by rw [hrest, List.append_assoc]⟩

theorem right (h : site.Reads ip (front ++ back)) : site.Reads (ip + front.length) back := by
  rcases h.ahead with ⟨rest, hrest⟩
  have hfirst := h.first_le
  have hlast := h.le_last
  rw [List.length_append] at hlast
  rw [List.append_assoc] at hrest
  exact ⟨by omega, by omega, rest, Loaded.ahead_add hrest⟩

theorem head (h : site.Reads ip (c :: back)) : site.Reads ip [c] := @left site ip [c] back h

theorem tail (h : site.Reads ip (c :: back)) : site.Reads (ip + 1) back :=
  @right site ip [c] back h

theorem getElem? (h : site.Reads ip (c :: back)) : site.program.code[ip]? = some c := by
  rcases h.ahead with ⟨rest, hrest⟩
  exact Loaded.getElem?_of_ahead hrest

/-- A position with code is inside the site. -/
theorem busy {m : Machine} (h : site.Reads ip (c :: back)) (hm : Shows site.base v m)
    (hallows : site.Allows c v) : site.Busy ⟨ip, m⟩ := by
  have hlast := h.le_last
  rw [List.length_cons] at hlast
  exact ⟨h.first_le, by show ip < site.last; omega, c, v, h.getElem?, hm, hallows⟩

end Reads

namespace Leads

theorem refl (s : Spot) : site.Leads 0 s s := by
  intro m hm
  exact ⟨m, .refl _, hm⟩

/-- Two stretches one behind the other; their steps add up. -/
theorem trans (h₁ : site.Leads n s t) (h₂ : site.Leads k t u) : site.Leads (n + k) s u := by
  intro m hm
  rcases h₁ m hm with ⟨m₁, hpath₁, hm₁⟩
  rcases h₂ m₁ hm₁ with ⟨m₂, hpath₂, hm₂⟩
  exact ⟨m₂, hpath₁.trans hpath₂, hm₂⟩

theorem cast (h : site.Leads n s t) (hn : n = k) : site.Leads k s t := hn ▸ h

end Leads

/-! ## One instruction -/

/-- An instruction that is no bracket leads to its neighbour. -/
theorem leads_of_execute (h : site.Reads ip (c :: back)) (hc : c ≠ '[' ∧ c ≠ ']')
    (hallows : site.Allows c v)
    (hfault : ∀ m, Shows site.base v m → m.fault? c ip = none)
    (hshows : ∀ m, Shows site.base v m → Shows site.base w (m.execute c)) :
    site.Leads 1 ⟨ip, v⟩ ⟨ip + 1, w⟩ := by
  intro m hm
  rcases h.ahead with ⟨rest, hrest⟩
  -- no bracket, so the position behind the step is the next one
  have hstep := Loaded.step?_of_ahead hrest hc (hfault m hm)
  exact ⟨m.execute c, .single (h.busy hm hallows) hstep, hshows m hm⟩

/-- Neither a bracket nor a print. -/
theorem Within.allows (h : site.Within v) (hc : c ≠ '[' ∧ c ≠ ']' ∧ c ≠ '.') :
    site.Allows c v := by
  refine ⟨h, ?_, ?_⟩
  · intro hbracket
    rcases hbracket with rfl | rfl
    · exact absurd rfl hc.1
    · exact absurd rfl hc.2.1
  · intro hprint
    exact absurd hprint hc.2.2

/-- A step to the right, from the counter to the register. -/
theorem leads_toRegister (h : site.Reads ip ('>' :: back)) (hwithin : site.Within v)
    (hon : v.onRegister = false) :
    site.Leads 1 ⟨ip, v⟩ ⟨ip + 1, { v with onRegister := true, wide := true }⟩ := by
  apply leads_of_execute h (by decide) (hwithin.allows (by decide))
  · intro m _
    rfl
  · intro m hm
    exact hm.toRegister hon

/-- A step to the left never leaves the tape, as it starts on the register. -/
theorem leads_toCounter (h : site.Reads ip ('<' :: back)) (hwithin : site.Within v)
    (hon : v.onRegister = true) :
    site.Leads 1 ⟨ip, v⟩ ⟨ip + 1, { v with onRegister := false }⟩ := by
  apply leads_of_execute h (by decide) (hwithin.allows (by decide))
  · intro m hm
    exact if_neg (hm.pointer_ne_zero hon)
  · intro m hm
    exact hm.toCounter hon

/-- A print needs a unit in the register. -/
theorem leads_print (h : site.Reads ip ('.' :: back)) (hallows : site.Allows '.' v)
    (hunit : 0 ≤ site.base.kind.store v.current ∧ site.base.kind.store v.current ≤ 65535) :
    site.Leads 1 ⟨ip, v⟩ ⟨ip + 1, v.print site.base.kind⟩ := by
  apply leads_of_execute h (by decide) hallows
  · intro m hm
    rw [← hm.current_eq] at hunit
    exact if_pos hunit
  · intro m hm
    exact hm.print

/-! ## Steps -/

/-- An adjustment that stops earlier stays within the bounds as well. -/
theorem Within.adjust_between {a b : Int} (h : site.Within v) (hend : site.Within (v.adjust b))
    (hbetween : (0 ≤ a ∧ a ≤ b) ∨ (b ≤ a ∧ a ≤ 0)) : site.Within (v.adjust a) := by
  rcases h with ⟨h₁, h₂, h₃, h₄⟩
  rcases hend with ⟨h₁', h₂', h₃', h₄'⟩
  rw [View.counter_adjust] at h₁' h₂'
  rw [View.register_adjust] at h₃' h₄'
  -- only the cell under the pointer moves, and its bounds are intervals
  by_cases hon : v.onRegister = true
  · rw [if_pos hon] at h₁' h₂' h₃' h₄'
    constructor <;> simp only [View.counter_adjust, View.register_adjust, if_pos hon] <;> omega
  · rw [if_neg hon] at h₁' h₂' h₃' h₄'
    constructor <;> simp only [View.counter_adjust, View.register_adjust, if_neg hon] <;> omega

/-- A single step up or down adjusts the cell under the pointer. -/
theorem leads_symbol {direction : Direction} (h : site.Reads ip (direction.symbol :: back))
    (hwithin : site.Within v) :
    site.Leads 1 ⟨ip, v⟩ ⟨ip + 1, v.adjust direction.sign⟩ := by
  cases direction with
  | up =>
      apply leads_of_execute h (by decide) (hwithin.allows (by decide))
      · intro m _
        rfl
      · intro m hm
        exact hm.adjust 1
  | down =>
      apply leads_of_execute h (by decide) (hwithin.allows (by decide))
      · intro m _
        rfl
      · intro m hm
        exact hm.adjust (-1)

/-- Steps adjust the cell under the pointer one by one. -/
theorem leads_steps {direction : Direction} {count : Nat}
    (h : site.Reads ip (steps direction count)) (hwithin : site.Within v)
    (hend : site.Within (v.adjust (direction.sign * count))) :
    site.Leads count ⟨ip, v⟩ ⟨ip + count, v.adjust (direction.sign * count)⟩ := by
  -- induction on the number of steps, with position and view free: the rest starts at the next
  -- position, from a cell already adjusted
  induction count generalizing ip v with
  | zero =>
      have hzero : direction.sign * ((0 : Nat) : Int) = 0 := Int.mul_zero _
      rw [hzero, View.adjust_zero]
      exact .refl _
  | succ count ih =>
      have hsteps : steps direction (count + 1) = direction.symbol :: steps direction count :=
        List.replicate_succ
      have hsum : direction.sign * ((count + 1 : Nat) : Int) =
          direction.sign + direction.sign * count := by
        rw [Int.natCast_succ, Int.mul_add, Int.mul_one, Int.add_comm]
      rw [hsteps] at h
      rw [hsum] at hend ⊢
      -- the first step stays between the start and the end
      have hone : site.Within (v.adjust direction.sign) := by
        apply hwithin.adjust_between hend
        cases direction <;> simp only [Direction.sign] <;> omega
      rw [← View.adjust_adjust] at hend ⊢
      have hrest := ih h.tail hone hend
      rw [Nat.add_assoc, Nat.add_comm 1 count] at hrest
      exact ((leads_symbol h hwithin).trans hrest).cast (Nat.add_comm 1 count)

end Site

end TapeText.Execution
