import TapeText.Line.Stream
import TapeText.Proofs.Text.Utf8

/-!
# TapeText.Proofs.Line.Stream — the lines of a stream by their number

Taking a line takes the first part off the stream. So the result of each call
can be said of the part that it took, without the calls before it.

* `IsMalformed`, `Answers` — what a call may return;
* `takeLine_fst`, `pieces_takeLine_snd` — what one call does to the parts;
* `answers_takeLines` — the result of each call;
* `not_isMalformed_of_valid`, `valid_of_not_isMalformed` — the whole stream is
  UTF-8 exactly if no call says otherwise.
-/

namespace TapeText.Stream

open Text

/-- The carriage return as a byte. -/
def ret : UInt8 := 13

/-- A result that reports a line that is not UTF-8. -/
def IsMalformed (origin : String) (result : Except LineError String) : Prop :=
  ∃ failure, failure.kind = .invalidData ∧ result = .error (.unreadable origin failure)

/-- What the `i`-th call returns on a stream that is cut into `parts`: there is
no line behind the last part, a line has to be UTF-8, and it comes without its
ending. -/
structure Answers (origin : String) (parts : List (List UInt8)) (i : Nat)
    (result : Except LineError String) : Prop where
  noLine : parts.length ≤ i → result = .error (.noLine origin)
  malformed : ∀ part, parts[i]? = some part → ¬ part.toByteArray.IsValidUTF8 →
    IsMalformed origin result
  line : ∀ part, parts[i]? = some part → part.toByteArray.IsValidUTF8 →
    ∃ text, result = .ok text ∧ IsBody feed ret part (Utf8.encode text)

variable {origin : String} {piece bytes : List UInt8} {i count : Nat}

/-! ## Lines of text -/

/-- In UTF-8 a line feed is one byte, which no other character has in its own bytes. -/
theorem marks_feed : Marks String.utf8EncodeChar '\n' feed := Utf8.marks_of_lt (by decide)

theorem marks_return : Marks String.utf8EncodeChar '\r' ret := Utf8.marks_of_lt (by decide)

/-- The parts of a text that is cut behind each line feed, as bytes. -/
theorem pieces_flatMap_utf8 (cs : List Char) :
    pieces feed (cs.flatMap String.utf8EncodeChar) =
      (pieces '\n' cs).map (List.flatMap String.utf8EncodeChar) :=
  pieces_flatMap marks_feed (fun _ => String.utf8EncodeChar_ne_nil) cs

/-- Cutting a stream behind its line feeds neither splits nor repairs a
character. -/
theorem isValidUTF8_pieces_iff :
    (∀ piece ∈ pieces feed bytes, piece.toByteArray.IsValidUTF8) ↔
      bytes.toByteArray.IsValidUTF8 := by
  constructor
  · intro h
    have hvalid := Utf8.isValidUTF8_flatten h
    rwa [flatten_pieces] at hvalid
  · intro h piece hpiece
    rcases Utf8.isValidUTF8_iff.1 h with ⟨cs, rfl⟩
    -- the parts of the bytes of a text are the bytes of the parts of the text
    rw [pieces_flatMap_utf8] at hpiece
    rcases List.mem_map.1 hpiece with ⟨line, -, rfl⟩
    exact Utf8.isValidUTF8_iff.2 ⟨line, rfl⟩

/-! ## One part -/

/-- A part that is UTF-8 is decoded and comes without its ending. -/
theorem decodeLine_of_valid (origin : String) (h : piece.toByteArray.IsValidUTF8) :
    ∃ text, decodeLine origin piece = .ok text ∧ IsBody feed ret piece (Utf8.encode text) := by
  rcases Utf8.isValidUTF8_iff.1 h with ⟨cs, rfl⟩
  refine ⟨String.ofList (withoutEnding '\n' '\r' cs), ?_, ?_⟩
  · simp only [decodeLine, Utf8.text?_flatMap, String.toList_ofList]
  · rw [Utf8.encode_ofList]
    exact marks_feed.isBody_flatMap marks_return
      (fun _ => String.utf8EncodeChar_ne_nil) (isBody_iff.2 rfl)

theorem decodeLine_of_invalid (origin : String) (h : ¬ piece.toByteArray.IsValidUTF8) :
    decodeLine origin piece = .error (.unreadable origin .malformedText) := by
  rw [decodeLine, Utf8.text?_of_invalid h]

/-- Nothing but a part that is not UTF-8 is reported as such. -/
theorem isMalformed_decodeLine_iff :
    IsMalformed origin (decodeLine origin piece) ↔ ¬ piece.toByteArray.IsValidUTF8 := by
  constructor
  · rintro ⟨failure, -, hresult⟩ hvalid
    rcases decodeLine_of_valid origin hvalid with ⟨text, hok, -⟩
    rw [hok] at hresult
    cases hresult
  · intro h
    exact ⟨.malformedText, rfl, decodeLine_of_invalid origin h⟩

/-! ## One call -/

/-- The result at one part of a stream, or behind the last one. -/
def lineAt (origin : String) : Option (List UInt8) → Except LineError String
  | some piece => decodeLine origin piece
  | none => .error (.noLine origin)

/-- A call answers for the first part. -/
theorem takeLine_fst (origin : String) (bytes : List UInt8) :
    (takeLine origin bytes).1 = lineAt origin (pieces feed bytes)[0]? := by
  cases bytes with
  | nil => rw [takeLine_nil, pieces_nil]; rfl
  | cons b rest => rw [pieces_cons]; rfl

/-- A call leaves the parts behind the first one. -/
theorem pieces_takeLine_snd (origin : String) (bytes : List UInt8) :
    pieces feed (takeLine origin bytes).2 = (pieces feed bytes).tail := by
  cases bytes with
  | nil => rw [takeLine_nil, pieces_nil]; rfl
  | cons b rest => rw [pieces_cons]; rfl

/-! ## All calls -/

/-- The `i`-th call answers for the `i`-th part, or there is none left. -/
theorem getElem?_takeLines (origin : String) (bytes : List UInt8) (h : i < count) :
    (takeLines origin count bytes)[i]? = some (lineAt origin (pieces feed bytes)[i]?) := by
  -- induction on the calls: each one takes the first part away
  induction count generalizing bytes i with
  | zero => exact absurd h (Nat.not_lt_zero i)
  | succ count ih =>
      cases i with
      | zero => rw [takeLines, List.getElem?_cons_zero, takeLine_fst]
      | succ i =>
          rw [takeLines, List.getElem?_cons_succ, ih _ (Nat.lt_of_succ_lt_succ h),
            pieces_takeLine_snd, List.getElem?_tail]

/-- The result at a part is what a call may return there. -/
theorem answers_lineAt (origin : String) (parts : List (List UInt8)) (i : Nat) :
    Answers origin parts i (lineAt origin parts[i]?) := by
  constructor
  · intro h
    rw [List.getElem?_eq_none h]
    rfl
  · intro part hpart h
    rw [hpart]
    exact isMalformed_decodeLine_iff.2 h
  · intro part hpart h
    rw [hpart]
    exact decodeLine_of_valid origin h

/-- The result of each call is that of its own part. -/
theorem answers_takeLines (origin : String) (bytes : List UInt8) (h : i < count) :
    ∃ result, (takeLines origin count bytes)[i]? = some result ∧
      Answers origin (pieces feed bytes) i result :=
  ⟨_, getElem?_takeLines origin bytes h, answers_lineAt origin _ i⟩

/-! ## Streams that are UTF-8 -/

/-- On a stream that is UTF-8 no call finds a line that is not. -/
theorem not_isMalformed_of_valid (h : bytes.toByteArray.IsValidUTF8) (count : Nat) :
    ∀ result ∈ takeLines origin count bytes, ¬ IsMalformed origin result := by
  intro result hresult hmalformed
  rcases List.mem_iff_getElem?.1 hresult with ⟨i, hi⟩
  have hlt : i < count := by
    rw [← length_takeLines origin count bytes]
    exact (List.getElem?_eq_some_iff.1 hi).1
  rw [getElem?_takeLines origin bytes hlt, Option.some.injEq] at hi
  subst hi
  -- behind the last part a call reports the end, and before that it answers for a part, which
  -- is UTF-8 as all of them are
  cases hpiece : (pieces feed bytes)[i]? with
  | none =>
      rw [hpiece] at hmalformed
      rcases hmalformed with ⟨failure, -, hresult⟩
      cases hresult
  | some piece =>
      rw [hpiece] at hmalformed
      apply isMalformed_decodeLine_iff.1 hmalformed
      exact isValidUTF8_pieces_iff.2 h piece (List.mem_of_getElem? hpiece)

/-- Calls that reach the end of a stream find a line that is not UTF-8, unless
the stream is UTF-8. -/
theorem valid_of_not_isMalformed (hcount : (pieces feed bytes).length ≤ count)
    (h : ∀ result ∈ takeLines origin count bytes, ¬ IsMalformed origin result) :
    bytes.toByteArray.IsValidUTF8 := by
  apply isValidUTF8_pieces_iff.1
  intro piece hpiece
  rcases List.mem_iff_getElem?.1 hpiece with ⟨i, hi⟩
  -- there is a call for every part
  have hlt : i < count := Nat.lt_of_lt_of_le (List.getElem?_eq_some_iff.1 hi).1 hcount
  have hresult := List.mem_of_getElem? (getElem?_takeLines origin bytes hlt)
  rw [hi] at hresult
  apply Decidable.byContradiction
  intro hinvalid
  exact h _ hresult (isMalformed_decodeLine_iff.2 hinvalid)

end TapeText.Stream
