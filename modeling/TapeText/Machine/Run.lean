import TapeText.Machine.Basic
import TapeText.Machine.Brackets

/-!
# TapeText.Machine.Run — running a program

A run executes a program from its first character until it leaves the program,
meets a fault, or has used up its steps. The machine is kept in every case, so
that another program can run on what this one has left.
-/

namespace TapeText

/-- A program whose brackets all have partners. -/
structure Loaded where
  code : Array Char
  /-- The partner of the bracket at each position. -/
  partners : Array (Option Nat)

/-- Pair the brackets of a program. -/
def Loaded.ofCode (code : List Char) : Except Fault Loaded :=
  match Brackets.partners code with
  | .ok partners => .ok ⟨code.toArray, partners⟩
  | .error ip => .error (.unmatchedBracket ip)

namespace Machine

/-- Run from `ip` with `budget` steps left of `limit`. -/
def runFrom (program : Loaded) (limit : Nat) :
    (budget : Nat) → (ip : Nat) → Machine → Machine × Except Fault Unit
  | 0, ip, m =>
    if ip < program.code.size then (m, .error (.stepLimitExceeded limit)) else (m, .ok ())
  | budget + 1, ip, m =>
    match program.code[ip]? with
    | none => (m, .ok ())
    | some c =>
      match m.fault? c ip with
      | some fault => (m, .error fault)
      | none =>
        runFrom program limit budget
          (m.next c ip (program.partners.getD ip none)) (m.execute c)

/-- Behind the end of the program the run is over, whatever its budget. -/
theorem runFrom_of_size_le {program : Loaded} {limit ip : Nat} (budget : Nat) (m : Machine)
    (h : program.code.size ≤ ip) : runFrom program limit budget ip m = (m, .ok ()) := by
  cases budget with
  | zero => rw [runFrom, if_neg (Nat.not_lt.2 h)]
  | succ budget => rw [runFrom, Array.getElem?_eq_none h]

/-- Without budget the run stops at the next instruction. -/
theorem runFrom_zero {program : Loaded} {limit ip : Nat} (m : Machine)
    (h : ip < program.code.size) :
    runFrom program limit 0 ip m = (m, .error (.stepLimitExceeded limit)) := by
  rw [runFrom, if_pos h]

/-- One instruction, and then the rest of the run. -/
theorem runFrom_succ {program : Loaded} {limit budget ip : Nat} {m : Machine} {c : Char}
    (hc : program.code[ip]? = some c) (hm : m.fault? c ip = none) :
    runFrom program limit (budget + 1) ip m =
      runFrom program limit budget
        (m.next c ip (program.partners.getD ip none)) (m.execute c) := by
  rw [runFrom, hc]
  simp only [hm]

/-- A fault ends the run and leaves the machine as it is. -/
theorem runFrom_fault {program : Loaded} {limit budget ip : Nat} {m : Machine} {c : Char}
    {fault : Fault} (hc : program.code[ip]? = some c) (hm : m.fault? c ip = some fault) :
    runFrom program limit (budget + 1) ip m = (m, .error fault) := by
  rw [runFrom, hc]
  simp only [hm]

/-- Run a program for at most `limit` steps. A program with an unpaired
bracket is rejected before its first instruction. -/
def run (m : Machine) (code : List Char) (limit : Nat) : Machine × Except Fault Unit :=
  match Loaded.ofCode code with
  | .ok program => runFrom program limit limit 0 m
  | .error fault => (m, .error fault)

theorem run_of_ofCode {code : List Char} {program : Loaded}
    (h : Loaded.ofCode code = .ok program) (m : Machine) (limit : Nat) :
    m.run code limit = runFrom program limit limit 0 m := by
  simp only [run, h]

/-- A rejected program leaves the machine as it is. -/
theorem run_of_ofCode_error {code : List Char} {fault : Fault}
    (h : Loaded.ofCode code = .error fault) (m : Machine) (limit : Nat) :
    m.run code limit = (m, .error fault) := by
  simp only [run, h]

end Machine

end TapeText
