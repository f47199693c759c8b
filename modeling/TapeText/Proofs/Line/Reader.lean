import TapeText.Proofs.Line.Stream

/-!
# TapeText.Proofs.Line.Reader — lines through a buffer

A reader asks its source for bytes only when it holds none, for at most
`capacity` at once, and the source may give fewer than that. A line is put
together from as many refills as it takes. What a reader holds ahead of the
line stays for the next call.

* `Reader`, `takeLine`, `takeLines` — a reader and its calls;
* `readThrough_fst`, `rest_readThrough` — how the bytes came in does not matter;
* `takeLines_eq` — the calls return the lines of the stream;
* `lines_of_reader` — the result of every call.
-/

namespace TapeText

/-- A buffered reader. Its source gives the bytes portion by portion, and ends
behind the last one. A portion is never empty and no refill asks for nothing: the
end of a source is told by its giving no bytes, so a reader without room for one
byte would take its source to be at the end wherever it stands. -/
structure Reader where
  /-- How many bytes are asked for at once. -/
  capacity : Nat
  /-- The bytes in the buffer. -/
  held : List UInt8
  /-- What the source has left. -/
  ahead : List (List UInt8)
  capacity_pos : 0 < capacity
  nil_notMem : [] ∉ ahead

open TapeText.Stream TapeText.Text

namespace Reader

/-- The bytes that are still to be read. -/
def rest (r : Reader) : List UInt8 := r.held ++ r.ahead.flatten

/-- A reader at the beginning of a source that gives these portions, the empty ones
left out. -/
def ofPortions (capacity : Nat) (hcapacity : 0 < capacity) (portions : List (List UInt8)) :
    Reader where
  capacity := capacity
  held := []
  ahead := portions.filter (· ≠ [])
  capacity_pos := hcapacity
  nil_notMem := by simp

/-- What it has to read is the portions one behind the other. -/
theorem rest_ofPortions {capacity : Nat} (hcapacity : 0 < capacity)
    (portions : List (List UInt8)) :
    (ofPortions capacity hcapacity portions).rest = portions.flatten :=
  List.flatten_filter_ne_nil

/-- What is left when the source has given a part of a portion. -/
def putBack (portion : List UInt8) (ahead : List (List UInt8)) : List (List UInt8) :=
  if portion = [] then ahead else portion :: ahead

/-- Putting back a part of a portion leaves no empty portion. -/
theorem nil_notMem_putBack (portion : List UInt8) {ahead : List (List UInt8)} (h : [] ∉ ahead) :
    [] ∉ putBack portion ahead := by
  unfold putBack
  split
  · exact h
  · -- an empty rest is not put back, so what is put back is not empty
    rename_i hportion
    intro hmem
    rcases List.mem_cons.1 hmem with hnil | hmem
    · exact hportion hnil.symm
    · exact h hmem

/-- What was not taken is in front of the portions that were left. -/
theorem flatten_putBack (portion : List UInt8) (ahead : List (List UInt8)) :
    (putBack portion ahead).flatten = portion ++ ahead.flatten := by
  unfold putBack
  split
  · rename_i hportion
    rw [hportion, List.nil_append]
  · exact List.flatten_cons

/-- Ask the source for more if the buffer is empty. -/
def fill (r : Reader) : Reader :=
  if r.held = [] then
    match h : r.ahead with
    | [] => r
    | portion :: ahead =>
      { r with
        held := portion.take r.capacity
        ahead := putBack (portion.drop r.capacity) ahead
        nil_notMem := nil_notMem_putBack _ fun hmem =>
          r.nil_notMem (h ▸ List.mem_cons_of_mem _ hmem) }
  else
    r

/-- A reader with an empty buffer gets the front of the next portion, if there is
one; nothing else changes. -/
theorem fill_cases (r : Reader) :
    (r.fill = r ∧ (r.held = [] → r.ahead = [])) ∨
      ∃ portion ahead, r.held = [] ∧ r.ahead = portion :: ahead ∧
        r.fill.held = portion.take r.capacity ∧
        r.fill.ahead = putBack (portion.drop r.capacity) ahead := by
  unfold fill
  split
  · rename_i hheld
    split
    · rename_i hahead
      exact .inl ⟨rfl, fun _ => hahead⟩
    · rename_i portion ahead hahead
      exact .inr ⟨portion, ahead, hheld, hahead, rfl, rfl⟩
  · rename_i hheld
    exact .inl ⟨rfl, fun h => absurd h hheld⟩

/-- A refill moves bytes into the buffer and loses none. -/
theorem rest_fill (r : Reader) : r.fill.rest = r.rest := by
  rcases fill_cases r with ⟨hfill, -⟩ | ⟨portion, ahead, hheld, hahead, hfront, hback⟩
  · rw [hfill]
  · rw [rest, rest, hfront, hback, hheld, hahead, flatten_putBack, ← List.append_assoc,
      List.take_append_drop, List.flatten_cons, List.nil_append]

/-- After a refill the buffer is empty at the end of the source only. -/
theorem rest_eq_nil_of_fill (r : Reader) (h : r.fill.held = []) : r.rest = [] := by
  rcases fill_cases r with ⟨hfill, hend⟩ | ⟨portion, ahead, -, hahead, hfront, -⟩
  · -- nothing was taken: there was no portion to take from
    rw [hfill] at h
    rw [rest, h, hend h]
    rfl
  · -- something was taken, so it is empty only without room for a byte or from an empty
    -- portion; a reader has neither
    rw [hfront] at h
    rcases List.take_eq_nil_iff.1 h with hcapacity | hportion
    · exact absurd hcapacity (Nat.ne_of_gt r.capacity_pos)
    · apply absurd r.nil_notMem
      rw [hahead, hportion]
      exact fun h => h List.mem_cons_self

/-- The reader with `bytes` left in its buffer. -/
def keep (r : Reader) (bytes : List UInt8) : Reader := { r with held := bytes }

theorem rest_keep (r : Reader) (bytes : List UInt8) :
    (r.keep bytes).rest = bytes ++ r.ahead.flatten := rfl

/-- The bytes of a reader are those in its buffer after a refill, and those behind it.
-/
theorem rest_eq_of_fill (r : Reader) : r.rest = r.fill.held ++ (r.fill.keep []).rest := by
  rw [← rest_fill r]
  rfl

/-- Read through the first line feed, or to the end. -/
def readThrough (r : Reader) : List UInt8 × Reader :=
  if r.fill.held = [] then
    ([], r.fill)
  else if feed ∈ r.fill.held then
    (firstPiece feed r.fill.held, r.fill.keep (afterFirst feed r.fill.held))
  else
    (readThrough (r.fill.keep [])).map (r.fill.held ++ ·) id
termination_by r.rest.length
decreasing_by
  rename_i hheld _
  rw [rest_eq_of_fill r, List.length_append]
  exact Nat.lt_add_of_pos_left (List.length_pos_iff.2 hheld)

def takeLine (origin : String) (r : Reader) : Except LineError String × Reader :=
  match r.readThrough with
  | ([], last) => (.error (.noLine origin), last)
  | (b :: piece, last) => (decodeLine origin (b :: piece), last)

/-- The results of taking `count` lines one after the other. -/
def takeLines (origin : String) : (count : Nat) → Reader → List (Except LineError String)
  | 0, _ => []
  | count + 1, r => (r.takeLine origin).1 :: takeLines origin count (r.takeLine origin).2

/-! ## Refills do not matter -/

/-- What is read through the first line feed is the first part of the stream,
however many refills it takes. -/
theorem readThrough_fst (r : Reader) : r.readThrough.1 = firstPiece feed r.rest := by
  -- induction on the refills: at the end of the source, with a line feed in the buffer, and
  -- with none, when everything in the buffer belongs to the line
  fun_induction readThrough r with
  | case1 r h => rw [rest_eq_nil_of_fill r h, firstPiece_nil]
  | case2 r h hfeed => rw [rest_eq_of_fill r, firstPiece_append_of_mem hfeed]
  | case3 r h hfeed ih =>
      rw [rest_eq_of_fill r, firstPiece_append_of_notMem hfeed, ← ih]
      rfl

/-- Behind the first part the rest of the stream is left for the next call. -/
theorem rest_readThrough (r : Reader) : r.readThrough.2.rest = afterFirst feed r.rest := by
  -- the same three cases; what is behind the line feed stays in the buffer
  fun_induction readThrough r with
  | case1 r h => rw [rest_fill r, rest_eq_nil_of_fill r h, afterFirst_nil]
  | case2 r h hfeed =>
      rw [rest_eq_of_fill r, afterFirst_append_of_mem hfeed, rest_keep]
      rfl
  | case3 r h hfeed ih =>
      rw [rest_eq_of_fill r, afterFirst_append_of_notMem hfeed, ← ih]
      rfl

/-- A call on a reader returns the next line of its stream, and leaves what is behind
that line. It is the only place where reader and stream are compared. -/
theorem takeLine_eq (origin : String) (r : Reader) :
    (r.takeLine origin).1 = (Stream.takeLine origin r.rest).1 ∧
      (r.takeLine origin).2.rest = (Stream.takeLine origin r.rest).2 := by
  have hpiece := readThrough_fst r
  have hrest := rest_readThrough r
  unfold takeLine
  -- nothing read means that nothing was left: a part of a stream is never empty
  cases hread : r.readThrough with
  | mk piece last =>
      rw [hread] at hpiece hrest
      cases hbytes : r.rest with
      | nil =>
          rw [hbytes] at hpiece hrest
          subst hpiece
          exact ⟨rfl, hrest⟩
      | cons b bytes =>
          rw [hbytes] at hpiece hrest
          cases piece with
          | nil => exact absurd hpiece.symm (firstPiece_ne_nil (List.cons_ne_nil b bytes))
          | cons first more =>
              rw [Stream.takeLine, ← hpiece]
              exact ⟨rfl, hrest⟩

/-- So a number of calls returns what the same number of calls on the stream returns. -/
theorem takeLines_eq (origin : String) (count : Nat) (r : Reader) :
    r.takeLines origin count = Stream.takeLines origin count r.rest := by
  -- induction on the calls, with the reader free: the next call finds the one that is left
  induction count generalizing r with
  | zero => rfl
  | succ count ih =>
      rcases takeLine_eq origin r with ⟨hresult, hrest⟩
      rw [takeLines, Stream.takeLines, hresult, ih, hrest]

/-! ## The lines of a reader -/

/-- Successive calls cut what a reader has to read into lines, and lose nothing.
The `i`-th call answers for the `i`-th part: a part that is not UTF-8 is
reported, any other part is returned without its line feed and one carriage
return before that, and behind the last part there is no line. How the buffer
is filled changes none of this, and no call reports a part exactly if all the
bytes are UTF-8. -/
theorem lines_of_reader (origin : String) (r : Reader) :
    (∀ parts, IsCut feed r.rest parts ↔ parts = pieces feed r.rest) ∧
      (∀ count i, i < count → ∃ result, (r.takeLines origin count)[i]? = some result ∧
        Answers origin (pieces feed r.rest) i result) ∧
      (∀ count, r.takeLines origin count = Stream.takeLines origin count r.rest) ∧
      (∀ other : Reader, other.rest = r.rest →
        ∀ count, other.takeLines origin count = r.takeLines origin count) ∧
      (∀ count, (pieces feed r.rest).length ≤ count →
        ((∀ result ∈ r.takeLines origin count, ¬ IsMalformed origin result) ↔
          r.rest.toByteArray.IsValidUTF8)) ∧
      ((∀ count, ∀ result ∈ r.takeLines origin count, ¬ IsMalformed origin result) ↔
        r.rest.toByteArray.IsValidUTF8) := by
  -- every clause about the calls is the one about the stream, as the calls return the same
  refine ⟨fun parts => isCut_iff, ?_, fun count => takeLines_eq origin count r, ?_, ?_, ?_⟩
  · intro count i hi
    rw [takeLines_eq]
    exact answers_takeLines origin r.rest hi
  · intro other hother count
    rw [takeLines_eq, takeLines_eq, hother]
  · intro count hcount
    rw [takeLines_eq]
    exact ⟨valid_of_not_isMalformed hcount, fun h => not_isMalformed_of_valid h count⟩
  · constructor
    · intro h
      -- as many calls as there are parts come to the end
      have hall := h (pieces feed r.rest).length
      rw [takeLines_eq] at hall
      exact valid_of_not_isMalformed (Nat.le_refl _) hall
    · intro h count
      rw [takeLines_eq]
      exact not_isMalformed_of_valid h count

/-- Seven bytes through a buffer of two, in portions that cut a character and a line
ending apart. -/
theorem lines_of_reader_two_by_two :
    ∃ r : Reader, r.capacity = 2 ∧ r.rest = [0xC3, 0xA9, 13, 10, 0xFF, 10, 97] ∧
      r.takeLines "stdin" 4 =
        [.ok "é", .error (.unreadable "stdin" .malformedText), .ok "a",
          .error (.noLine "stdin")] := by
  refine ⟨ofPortions 2 Nat.two_pos [[0xC3], [0xA9, 13], [10, 0xFF, 10], [], [97]], rfl, rfl, ?_⟩
  rcases lines_of_reader "stdin"
    (ofPortions 2 Nat.two_pos [[0xC3], [0xA9, 13], [10, 0xFF, 10], [], [97]]) with
    ⟨-, -, hstream, -⟩
  -- the calls are those on the stream, which is evaluated
  rw [hstream, rest_ofPortions]
  rfl

end Reader

end TapeText
