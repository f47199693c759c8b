import TapeText.Proofs.Machine.Moment

/-!
# TapeText.Proofs.Machine.Nesting — properly nested brackets

What the scan for partners computes, against a definition of nesting that does
not mention the scan.

* `Balanced` — every bracket of a list has its partner in it, properly nested;
* `closes` — the same as a computation, with a depth;
* `balanced_iff_partners` — the scan accepts the balanced programs, and no
  others;
* `partners_of_loop` — the scan sends the brackets around a balanced body to
  each other;
* `exists_close`, `exists_open` — every bracket of a balanced program stands
  at one end of a loop;
* what all this says about a loaded program.
-/

namespace TapeText.Brackets

/-- Every bracket has its partner, properly nested. -/
inductive Balanced : List Char → Prop where
  | nil : Balanced []
  | other {c : Char} {rest : List Char} (hc : c ≠ '[' ∧ c ≠ ']') (hrest : Balanced rest) :
      Balanced (c :: rest)
  | loop {body rest : List Char} (hbody : Balanced body) (hrest : Balanced rest) :
      Balanced ('[' :: (body ++ ']' :: rest))

variable {front : Array (Option Nat)} {opens : List Nat} {code body rest : List Char}

/-- Balanced code may stand behind balanced code. -/
theorem Balanced.append (h : Balanced code) (hrest : Balanced rest) : Balanced (code ++ rest) := by
  -- induction on the nesting; the back goes behind the last loop
  induction h with
  | nil => exact hrest
  | other hc _ ih => exact .other hc ih
  | loop hbody _ _ ih =>
      simp only [List.cons_append, List.append_assoc]
      exact .loop hbody ih

/-- Code without brackets is balanced. -/
theorem balanced_of_forall (h : ∀ c ∈ code, c ≠ '[' ∧ c ≠ ']') : Balanced code := by
  induction code with
  | nil => exact .nil
  | cons c rest ih =>
      apply Balanced.other (h c List.mem_cons_self)
      apply ih
      intro d hd
      exact h d (List.mem_cons_of_mem c hd)

/-- So is any number of balanced parts. -/
theorem balanced_flatten {parts : List (List Char)} (h : ∀ part ∈ parts, Balanced part) :
    Balanced parts.flatten := by
  induction parts with
  | nil => exact .nil
  | cons part parts ih =>
      apply (h part List.mem_cons_self).append
      apply ih
      intro p hp
      exact h p (List.mem_cons_of_mem part hp)

/-! ## Nesting by depth -/

/-- The list closes all the brackets it opens, and `depth` more. -/
def closes : (depth : Nat) → List Char → Bool
  | depth, [] => depth == 0
  | depth, c :: rest =>
    if c = '[' then closes (depth + 1) rest
    else if c = ']' then depth != 0 && closes (depth - 1) rest
    else closes depth rest

theorem closes_other {c : Char} (hc : c ≠ '[' ∧ c ≠ ']') (depth : Nat) (rest : List Char) :
    closes depth (c :: rest) = closes depth rest := by
  rw [closes, if_neg hc.1, if_neg hc.2]

/-- Balanced code leaves the depth as it was. -/
theorem Balanced.closes_append (h : Balanced code) (depth : Nat) (rest : List Char) :
    closes depth (code ++ rest) = closes depth rest := by
  -- induction on the nesting, at any depth and in front of anything
  induction h generalizing depth rest with
  | nil => rfl
  | other hc _ ih =>
      rw [List.cons_append, closes_other hc]
      exact ih depth rest
  | @loop body more _ _ ihbody ihrest =>
      rw [List.cons_append, List.append_assoc, List.cons_append]
      -- the loop goes one level down and comes back up
      show closes (depth + 1) (body ++ ']' :: (more ++ rest)) = _
      rw [ihbody]
      exact ihrest depth rest

/-- A list that closes `depth` brackets from outside: that many balanced parts
with a closing bracket behind each, and a last one. -/
inductive Closing : (depth : Nat) → List Char → Prop where
  | balanced {code : List Char} (h : Balanced code) : Closing 0 code
  | close {depth : Nat} {body rest : List Char} (hbody : Balanced body)
      (hrest : Closing depth rest) : Closing (depth + 1) (body ++ ']' :: rest)

/-- A balanced part in front changes nothing. -/
theorem Closing.append {depth : Nat} (h : Closing depth rest) (hcode : Balanced code) :
    Closing depth (code ++ rest) := by
  cases h with
  | balanced h => exact .balanced (hcode.append h)
  | close hbody hrest =>
      rw [← List.append_assoc]
      exact .close (hcode.append hbody) hrest

/-- A list that comes back to depth zero falls into balanced parts. -/
theorem closing_of_closes {depth : Nat} (h : closes depth code = true) : Closing depth code := by
  -- induction on the list, with the depth free as brackets change it
  induction code generalizing depth with
  | nil =>
      obtain rfl : depth = 0 := by simpa [closes] using h
      exact .balanced .nil
  | cons c rest ih =>
      rw [closes] at h
      split at h
      · next hc =>
        -- the bracket opened here is the first one the rest closes
        subst hc
        cases ih h with
        | @close _ body more hbody hrest =>
            have hloop : Balanced ('[' :: (body ++ [']'])) := .loop hbody .nil
            simpa using hrest.append hloop
      · next hopen =>
        split at h
        · next hc =>
          -- a closing bracket ends the first part
          subst hc
          cases depth with
          | zero => simp at h
          | succ depth =>
              have hrest : closes depth rest = true := by simpa using h
              exact .close .nil (ih hrest)
        · next hclose => exact (ih h).append (.other ⟨hopen, hclose⟩ .nil)

/-- Nesting can be computed. -/
theorem balanced_iff_closes : Balanced code ↔ closes 0 code = true := by
  constructor
  · intro h
    have happend := h.closes_append 0 []
    rw [List.append_nil] at happend
    rw [happend]
    rfl
  · intro h
    cases closing_of_closes h with
    | balanced h => exact h

instance (code : List Char) : Decidable (Balanced code) :=
  decidable_of_iff _ balanced_iff_closes.symm

/-! ## The scan -/

variable {table : Array (Option Nat)} {back : List Char}

/-- An opening bracket gets an empty entry, and is the innermost one from then on. -/
theorem scan_open (front : Array (Option Nat)) (opens : List Nat) (rest : List Char) :
    scan front opens ('[' :: rest) = scan (front.push none) (front.size :: opens) rest := by
  rw [scan.eq_def]
  exact if_pos rfl

/-- A closing bracket gets the innermost one as its partner and fills in the entry of
that. -/
theorem scan_close (front : Array (Option Nat)) (i : Nat) (outer : List Nat) (rest : List Char) :
    scan front (i :: outer) (']' :: rest) =
      scan ((front.setIfInBounds i (some front.size)).push (some i)) outer rest := by
  rw [scan.eq_def]
  exact (if_neg (by decide)).trans (if_pos rfl)

theorem scan_other {c : Char} (hc : c ≠ '[' ∧ c ≠ ']') (front : Array (Option Nat))
    (opens : List Nat) (rest : List Char) :
    scan front opens (c :: rest) = scan (front.push none) opens rest := by
  rw [scan.eq_def]
  exact (if_neg hc.1).trans (if_neg hc.2)

/-- The entry of an opening bracket is filled in when its partner is met. -/
theorem fill_open (front inner : Array (Option Nat)) (x y : Option Nat) :
    ((front.push none ++ inner).setIfInBounds front.size x).push y =
      front ++ (#[x] ++ inner ++ #[y]) := by
  have hpush : front.push none ++ inner = front ++ (#[none] ++ inner) := by simp
  rw [hpush, Array.setIfInBounds_append_right (Nat.le_refl _), Nat.sub_self,
    Array.setIfInBounds_append_left (by decide)]
  simp

/-- The scan reads a balanced part without looking at what is open around it,
and adds an entry for each of its characters. -/
theorem Balanced.scan_append (h : Balanced code) (front : Array (Option Nat)) :
    ∃ entries : Array (Option Nat), entries.size = code.length ∧
      ∀ opens rest, scan front opens (code ++ rest) = scan (front ++ entries) opens rest := by
  -- induction on the nesting, with the entries in front free
  induction h generalizing front with
  | nil => exact ⟨#[], rfl, fun opens rest => by simp⟩
  | @other c more hc _ ih =>
      rcases ih (front.push none) with ⟨entries, hsize, hscan⟩
      -- an empty entry for the character, and those of the rest
      refine ⟨#[none] ++ entries, ?_, ?_⟩
      · simp only [Array.size_append, hsize, List.length_cons]
        exact Nat.add_comm _ _
      · intro opens rest
        rw [List.cons_append, scan_other hc, hscan]
        simp
  | @loop body more _ _ ihbody ihmore =>
      rcases ihbody (front.push none) with ⟨inner, hinner, hbody⟩
      -- the closing bracket comes right behind the entries of the body
      let close := front.size + 1 + body.length
      obtain ⟨outer, houter, hmore⟩ :=
        ihmore (front ++ (#[some close] ++ inner ++ #[some front.size]))
      refine ⟨#[some close] ++ inner ++ #[some front.size] ++ outer, ?_, ?_⟩
      · simp only [Array.size_append, hinner, houter, List.length_cons, List.length_append]
        simp only [List.size_toArray, List.length_cons, List.length_nil]
        omega
      · intro opens rest
        rw [List.cons_append, List.append_assoc, List.cons_append, scan_open, hbody, scan_close]
        have hclose : (front.push none ++ inner).size = close := by
          simp only [Array.size_append, Array.size_push, hinner, close]
        rw [fill_open, hclose, hmore]
        simp only [Array.append_assoc]

/-- No later entry changes an earlier one, unless its bracket is still open. -/
theorem getElem?_of_scan (h : scan front opens code = .ok table) {i : Nat}
    (hi : i < front.size) (hopen : i ∉ opens) : table[i]? = front[i]? := by
  -- one case for each branch of the scan
  fun_induction scan front opens code with
  | case1 front => rw [Except.ok.inj h]
  | case2 => simp at h
  | case3 front opens rest here ih =>
      -- the new entry stands behind all the earlier ones
      have hne : i ≠ here := Nat.ne_of_lt hi
      rw [ih h (by simp only [Array.size_push]; omega) (by simp [hne, hopen]),
        Array.getElem?_push, if_neg hne]
  | case4 => simp at h
  | case5 front rest here j outer hc ih =>
      -- the entry that is filled in belongs to a bracket that was open
      have hne : i ≠ here := Nat.ne_of_lt hi
      rw [List.mem_cons, not_or] at hopen
      rw [ih h (by simp only [Array.size_push, Array.size_setIfInBounds]; omega) hopen.2,
        Array.getElem?_push, Array.size_setIfInBounds, if_neg hne,
        Array.getElem?_setIfInBounds_ne (Ne.symm hopen.1)]
  | case6 front opens c rest hc hc' ih =>
      rw [ih h (by simp only [Array.size_push]; omega) hopen, Array.getElem?_push,
        if_neg (Nat.ne_of_lt hi)]

/-- One character of a program that the scan accepts. -/
theorem exists_of_scan_cons {c : Char} (hopens : ∀ i ∈ opens, i < front.size)
    (h : scan front opens (c :: rest) = .ok table) :
    ∃ front' opens', front'.size = front.size + 1 ∧ (∀ i ∈ opens', i < front'.size) ∧
      scan front' opens' rest = .ok table := by
  have hlater : ∀ i ∈ opens, i < front.size + 1 := by
    intro i hi
    exact Nat.lt_succ_of_lt (hopens i hi)
  by_cases hopen : c = '['
  · subst hopen
    rw [scan_open] at h
    refine ⟨_, _, Array.size_push _, ?_, h⟩
    rw [Array.size_push]
    exact List.forall_mem_cons.2 ⟨Nat.lt_succ_self _, hlater⟩
  · by_cases hclose : c = ']'
    · subst hclose
      cases opens with
      | nil => simp [scan] at h
      | cons j outer =>
          rw [scan_close] at h
          refine ⟨_, _, by rw [Array.size_push, Array.size_setIfInBounds], ?_, h⟩
          rw [Array.size_push, Array.size_setIfInBounds]
          exact (List.forall_mem_cons.1 hlater).2
    · rw [scan_other ⟨hopen, hclose⟩] at h
      refine ⟨_, _, Array.size_push _, ?_, h⟩
      rw [Array.size_push]
      exact hlater

/-- The scan sends the brackets around a balanced body to each other. -/
theorem getElem?_of_scan_loop {before : List Char} (hbody : Balanced body)
    (hopens : ∀ i ∈ opens, i < front.size)
    (h : scan front opens (before ++ '[' :: (body ++ ']' :: back)) = .ok table) :
    table[front.size + before.length]? =
        some (some (front.size + before.length + 1 + body.length)) ∧
      table[front.size + before.length + 1 + body.length]? =
        some (some (front.size + before.length)) := by
  -- induction on what stands in front of the loop, whatever brackets it opens
  induction before generalizing front opens with
  | nil =>
      -- the loop begins here, and nothing behind it touches its two entries
      rcases hbody.scan_append (front.push none) with ⟨inner, hinner, hscan⟩
      have hclose : (front.push none ++ inner).size = front.size + 1 + body.length := by
        simp only [Array.size_append, Array.size_push, hinner]
      rw [List.nil_append, scan_open, hscan, scan_close, fill_open, hclose] at h
      have hfront : front.size ∉ opens := by
        intro hmem
        exact Nat.lt_irrefl _ (hopens _ hmem)
      have hback : front.size + 1 + body.length ∉ opens := by
        intro hmem
        have := hopens _ hmem
        omega
      have hfirst : (#[some (front.size + 1 + body.length)] ++ inner).size = 1 + body.length := by
        simp only [Array.size_append, hinner]
        rfl
      constructor
      · rw [List.length_nil, Nat.add_zero, getElem?_of_scan h (by simp; omega) hfront,
          Array.getElem?_append_right (Nat.le_refl _), Nat.sub_self,
          Array.getElem?_append_left (by omega), Array.getElem?_append_left (by simp)]
        rfl
      · rw [List.length_nil, Nat.add_zero, getElem?_of_scan h (by simp; omega) hback,
          Array.getElem?_append_right (by omega), Array.getElem?_append_right (by omega), hfirst,
          show front.size + 1 + body.length - front.size - (1 + body.length) = 0 by omega]
        rfl
  | cons c before ih =>
      -- a character in front of the loop only adds an entry
      rcases exists_of_scan_cons hopens h with ⟨front', opens', hsize, hopens', h'⟩
      have hlen : front.size + (c :: before).length = front'.size + before.length := by
        simp only [List.length_cons]
        omega
      rw [hlen]
      exact ih hopens' h'

/-- Every bracket of a program gets the partner at the other end of its
loop. -/
theorem getElem?_of_partners {before : List Char} (hbody : Balanced body)
    (h : partners (before ++ '[' :: (body ++ ']' :: back)) = .ok table) :
    table[before.length]? = some (some (before.length + 1 + body.length)) ∧
      table[before.length + 1 + body.length]? = some (some before.length) := by
  have hnone : ∀ i ∈ ([] : List Nat), i < (#[] : Array (Option Nat)).size := by simp
  simpa using getElem?_of_scan_loop hbody hnone h

/-- A scan that accepts a program has closed what was open. -/
theorem closes_of_scan (h : scan front opens code = .ok table) :
    closes opens.length code = true := by
  -- one case for each branch of the scan: the number of open brackets is the depth
  fun_induction scan front opens code with
  | case1 => rfl
  | case2 => simp at h
  | case3 front opens rest here ih => exact ih h
  | case4 => simp at h
  | case5 front rest here i outer hc ih => simpa [closes] using ih h
  | case6 front opens c rest hc hc' ih =>
      rw [closes_other ⟨hc, hc'⟩]
      exact ih h

/-- The programs with a table of partners are the balanced ones. -/
theorem balanced_iff_partners : Balanced code ↔ ∃ table, partners code = .ok table := by
  constructor
  · intro h
    rcases h.scan_append #[] with ⟨entries, -, hscan⟩
    refine ⟨#[] ++ entries, ?_⟩
    have hpart := hscan [] []
    rw [List.append_nil] at hpart
    rw [partners, hpart]
    rfl
  · rintro ⟨table, h⟩
    exact balanced_iff_closes.2 (closes_of_scan h)

/-! ## The loop of a bracket -/

/-- An opening bracket of a balanced program opens a loop. -/
theorem Balanced.exists_close {before : List Char} (h : Balanced (before ++ '[' :: rest)) :
    ∃ body back, rest = body ++ ']' :: back ∧ Balanced body := by
  generalize hcode : before ++ '[' :: rest = code at h
  -- induction on the nesting, for a bracket anywhere in it
  induction h generalizing before rest with
  | nil => simp at hcode
  | @other c more hc _ ih =>
      cases before with
      | nil => exact absurd (List.cons.inj hcode).1.symm hc.1
      | cons d before => exact ih (List.cons.inj hcode).2
  | @loop body more hbody _ ihbody ihmore =>
      cases before with
      | nil => exact ⟨body, more, (List.cons.inj hcode).2, hbody⟩
      | cons d before =>
          -- the bracket stands behind the loop, or in its body
          rcases List.append_eq_append_iff.1 (List.cons.inj hcode).2 with
            ⟨inner, hinner, hrest⟩ | ⟨inner, rfl, hrest⟩
          · cases inner with
            | nil => exact absurd (List.cons.inj hrest).1 (by decide)
            | cons e inner =>
                rcases List.cons.inj hrest with ⟨rfl, rfl⟩
                rcases ihbody hinner.symm with ⟨tail, back, rfl, htail⟩
                exact ⟨tail, back ++ ']' :: more, by simp, htail⟩
          · cases inner with
            | nil => exact absurd (List.cons.inj hrest).1 (by decide)
            | cons e inner => exact ihmore (List.cons.inj hrest).2.symm

/-- A closing bracket of a balanced program closes a loop. -/
theorem Balanced.exists_open {before : List Char} (h : Balanced (before ++ ']' :: back)) :
    ∃ front body, before = front ++ '[' :: body ∧ Balanced body := by
  generalize hcode : before ++ ']' :: back = code at h
  -- the same induction, looking to the left
  induction h generalizing before back with
  | nil => simp at hcode
  | @other c more hc _ ih =>
      cases before with
      | nil => exact absurd (List.cons.inj hcode).1.symm hc.2
      | cons d before =>
          rcases ih (List.cons.inj hcode).2 with ⟨front, body, rfl, hbody⟩
          exact ⟨d :: front, body, rfl, hbody⟩
  | @loop body more hbody _ ihbody ihmore =>
      cases before with
      | nil => exact absurd (List.cons.inj hcode).1 (by decide)
      | cons d before =>
          rcases List.cons.inj hcode with ⟨rfl, happend⟩
          -- the bracket stands in the body, at its end, or behind the loop
          rcases List.append_eq_append_iff.1 happend with
            ⟨inner, hinner, hrest⟩ | ⟨inner, rfl, hrest⟩
          · cases inner with
            | nil =>
                rw [List.append_nil] at hinner
                exact ⟨[], body, by rw [hinner]; rfl, hbody⟩
            | cons e inner =>
                rcases List.cons.inj hrest with ⟨rfl, -⟩
                rcases ihbody hinner.symm with ⟨front, tail, rfl, htail⟩
                exact ⟨'[' :: front, tail, rfl, htail⟩
          · cases inner with
            | nil => exact ⟨[], body, by simp, hbody⟩
            | cons e inner =>
                rcases List.cons.inj hrest with ⟨rfl, hmore⟩
                rcases ihmore hmore.symm with ⟨front, tail, rfl, htail⟩
                exact ⟨'[' :: (body ++ ']' :: front), tail, by simp, htail⟩

end TapeText.Brackets

/-! ## Loaded programs -/

namespace TapeText.Loaded

open Brackets

variable {program : Loaded} {code before body back : List Char}

theorem ofCode_eq_ok (h : ofCode code = .ok program) :
    program.code = code.toArray ∧ Brackets.partners code = .ok program.partners := by
  unfold ofCode at h
  split at h
  · next table htable =>
    obtain rfl := Except.ok.inj h
    exact ⟨rfl, htable⟩
  · simp at h

/-- A balanced program can be loaded. -/
theorem exists_ofCode (h : Balanced code) : ∃ program, ofCode code = .ok program := by
  rcases balanced_iff_partners.1 h with ⟨table, htable⟩
  exact ⟨⟨code.toArray, table⟩, by rw [ofCode, htable]⟩

/-- Any other program has a bracket without a partner. -/
theorem exists_ofCode_error (h : ¬ Balanced code) :
    ∃ ip, ofCode code = .error (.unmatchedBracket ip) := by
  unfold ofCode
  cases hpartners : Brackets.partners code with
  | ok table => exact absurd (balanced_iff_partners.2 ⟨table, hpartners⟩) h
  | error ip => exact ⟨ip, rfl⟩

/-- Only balanced code can be loaded. -/
theorem balanced_of_ofCode (h : ofCode code = .ok program) : Balanced code :=
  balanced_iff_partners.2 ⟨program.partners, (ofCode_eq_ok h).2⟩

/-- The partners of the brackets around a balanced body. -/
theorem partners_of_loop (h : ofCode code = .ok program) (hbody : Balanced body)
    (hcode : code = before ++ '[' :: (body ++ ']' :: back)) :
    program.partners.getD before.length none = some (before.length + 1 + body.length) ∧
      program.partners.getD (before.length + 1 + body.length) none = some before.length := by
  have hpartners := (ofCode_eq_ok h).2
  rw [hcode] at hpartners
  rcases getElem?_of_partners hbody hpartners with ⟨hopen, hclose⟩
  constructor
  · rw [Array.getD_eq_getD_getElem?, hopen]
    rfl
  · rw [Array.getD_eq_getD_getElem?, hclose]
    rfl

/-- A loaded program has the characters of its code. -/
theorem getElem?_code (h : ofCode code = .ok program) (ip : Nat) :
    program.code[ip]? = code[ip]? := by
  rw [(ofCode_eq_ok h).1, List.getElem?_toArray]

theorem ahead_eq_drop (h : ofCode code = .ok program) (ip : Nat) :
    program.ahead ip = code.drop ip := by
  unfold ahead
  rw [(ofCode_eq_ok h).1]

theorem getElem?_of_ofCode {c : Char} (h : ofCode code = .ok program)
    (hcode : code = before ++ c :: back) : program.code[before.length]? = some c := by
  rw [getElem?_code h, hcode]
  simp

theorem size_of_ofCode (h : ofCode code = .ok program) : program.code.size = code.length := by
  rw [(ofCode_eq_ok h).1]
  exact List.size_toArray

/-- There is no instruction behind the end of a program. -/
theorem getElem?_of_length_le {ip : Nat} (h : ofCode code = .ok program)
    (hip : code.length ≤ ip) : program.code[ip]? = none := by
  apply Array.getElem?_eq_none
  rwa [size_of_ofCode h]

end TapeText.Loaded
