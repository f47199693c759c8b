import TapeText.Line.Source
import TapeText.Proofs.Line.Stream
import TapeText.Proofs.Text.FirstLine

/-!
# TapeText.Proofs.Line.Source — the line of a source

Words are characters, a file and the standard input are bytes. Either way the
line is what the source begins with. Words always give one. Bytes give none if
they cannot be read, if there are none, or if those of the line are not UTF-8;
what follows the line is not looked at.

* `takeLine_eq_ok_iff`, `exists_takeLine_eq_error_iff` — the first line of a
  stream;
* `Source.Gives`, `Source.Fails` — the line of a source, and why there is none;
* `Source.firstLine_eq_ok_iff`, `Source.exists_firstLine_eq_error_iff` — reading
  a source meets them;
* `Source.line_of_words_and_bytes` — words and the bytes of the same text.
-/

namespace TapeText

open Text

/-! ## The first line of a stream -/

namespace Stream

variable {origin : String} {piece body bytes line rest : List UInt8}

theorem ret_ne_feed : ret ≠ feed := by decide

/-- The ending of a line does not make it UTF-8, or spoil it. -/
theorem isValidUTF8_body_iff (h : IsBody feed ret piece body) :
    body.toByteArray.IsValidUTF8 ↔ piece.toByteArray.IsValidUTF8 := by
  constructor
  · intro hbody
    -- what is behind the body is a text of its own, of two characters at most
    have hending : ∀ ending : List Char, piece = body ++ ending.flatMap String.utf8EncodeChar →
        piece.toByteArray.IsValidUTF8 := by
      rintro ending rfl
      rw [List.toByteArray_append]
      exact hbody.append (Utf8.isValidUTF8_iff.2 ⟨ending, rfl⟩)
    rcases h with hpiece | ⟨hpiece, -⟩ | ⟨rfl, -⟩
    · exact hending ['\r', '\n'] hpiece
    · exact hending ['\n'] hpiece
    · exact hbody
  · intro hpiece
    -- a piece has one body only, and decoding it gives the bytes of a text
    rcases decodeLine_of_valid "" hpiece with ⟨text, -, htext⟩
    rw [← isBody_iff.1 h, isBody_iff.1 htext]
    exact Utf8.isValidUTF8_encode text

/-- Taking a line off a stream decodes what the stream begins with. -/
theorem takeLine_of_begins (origin : String) (hbytes : bytes ≠ [])
    (h : Begins feed ret bytes line rest) :
    (∃ text, line = Utf8.encode text ∧ (takeLine origin bytes).1 = .ok text) ∨
      (¬ line.toByteArray.IsValidUTF8 ∧
        (takeLine origin bytes).1 = .error (.unreadable origin .malformedText)) := by
  -- the line is the body of the first piece, and that piece is what is decoded
  rcases h.firstPiece_eq ret_ne_feed with ⟨hbody, -⟩
  have htake : (takeLine origin bytes).1 = decodeLine origin (firstPiece feed bytes) := by
    cases bytes with
    | nil => exact absurd rfl hbytes
    | cons b bytes => rfl
  rw [htake, isValidUTF8_body_iff hbody]
  by_cases hvalid : (firstPiece feed bytes).toByteArray.IsValidUTF8
  · left
    rcases decodeLine_of_valid origin hvalid with ⟨text, hresult, htext⟩
    exact ⟨text, (isBody_iff.1 hbody).symm.trans (isBody_iff.1 htext), hresult⟩
  · right
    exact ⟨hvalid, decodeLine_of_invalid origin hvalid⟩

/-- Taking a line succeeds with the text that the stream begins with. -/
theorem takeLine_eq_ok_iff {text : String} :
    (takeLine origin bytes).1 = .ok text ↔
      bytes ≠ [] ∧ ∃ rest, Begins feed ret bytes (Utf8.encode text) rest := by
  constructor
  · intro h
    have hbytes : bytes ≠ [] := by
      rintro rfl
      cases h
    have hline := begins_withoutEnding feed ret bytes
    rcases takeLine_of_begins origin hbytes hline with ⟨found, hfound, hresult⟩ | ⟨-, hresult⟩
    · rw [hresult] at h
      cases h
      rw [hfound] at hline
      exact ⟨hbytes, _, hline⟩
    · rw [hresult] at h
      cases h
  · rintro ⟨hbytes, rest, hline⟩
    rcases takeLine_of_begins origin hbytes hline with ⟨found, hfound, hresult⟩ | ⟨hinvalid, -⟩
    · rw [hresult, Utf8.encode_inj.1 hfound]
    · exact absurd (Utf8.isValidUTF8_encode text) hinvalid

/-- It fails at the end of the stream, and on a line that is not UTF-8. -/
theorem exists_takeLine_eq_error_iff :
    (∃ e, (takeLine origin bytes).1 = .error e) ↔
      bytes = [] ∨ ∃ line rest, Begins feed ret bytes line rest ∧
        ¬ line.toByteArray.IsValidUTF8 := by
  constructor
  · rintro ⟨e, h⟩
    by_cases hbytes : bytes = []
    · exact .inl hbytes
    · have hline := begins_withoutEnding feed ret bytes
      rcases takeLine_of_begins origin hbytes hline with ⟨text, -, hresult⟩ | ⟨hinvalid, -⟩
      · rw [hresult] at h
        cases h
      · exact .inr ⟨_, _, hline, hinvalid⟩
  · rintro (rfl | ⟨line, rest, hline, hinvalid⟩)
    · exact ⟨_, rfl⟩
    · by_cases hbytes : bytes = []
      · rw [hbytes]
        exact ⟨_, rfl⟩
      · rcases takeLine_of_begins origin hbytes hline with ⟨text, rfl, -⟩ | ⟨-, hresult⟩
        · exact absurd (Utf8.isValidUTF8_encode text) hinvalid
        · exact ⟨_, hresult⟩

end Stream

/-! ## The line of a source -/

namespace Source

/-- What comes of reading a source. Words are not read. -/
def content? (contentOf : Path → Except ReadFailure (List UInt8))
    (input : Except ReadFailure (List UInt8)) : Source → Option (Except ReadFailure (List UInt8))
  | words _ => none
  | file path => some (contentOf path)
  | stdin => some input

/-- The bytes that a source holds. Words have none, and neither has a source that
cannot be read. -/
def bytes? (contentOf : Path → Except ReadFailure (List UInt8))
    (input : Except ReadFailure (List UInt8)) (source : Source) : Option (List UInt8) :=
  (source.content? contentOf input).bind Except.toOption

/-- The source begins with the line. -/
inductive Gives (contentOf : Path → Except ReadFailure (List UInt8))
    (input : Except ReadFailure (List UInt8)) : Source → String → Prop
  | words {text line : String} {rest : List Char}
      (begins : Begins '\n' '\r' text.toList line.toList rest) :
      Gives contentOf input (.words text) line
  | bytes {source : Source} {bytes rest : List UInt8} {line : String}
      (held : source.bytes? contentOf input = some bytes) (nonempty : bytes ≠ [])
      (begins : Begins Stream.feed Stream.ret bytes (Utf8.encode line) rest) :
      Gives contentOf input source line

/-- Reading the source fails: it cannot be opened or read, or it is at its end, or
its first line is not UTF-8. -/
inductive Fails (contentOf : Path → Except ReadFailure (List UInt8))
    (input : Except ReadFailure (List UInt8)) : Source → Prop
  | unreadable {source : Source} {failure : ReadFailure}
      (failed : source.content? contentOf input = some (.error failure)) :
      Fails contentOf input source
  | empty {source : Source} (held : source.bytes? contentOf input = some []) :
      Fails contentOf input source
  | malformed {source : Source} {bytes line rest : List UInt8}
      (held : source.bytes? contentOf input = some bytes)
      (begins : Begins Stream.feed Stream.ret bytes line rest)
      (invalid : ¬ line.toByteArray.IsValidUTF8) :
      Fails contentOf input source

variable {contentOf contentOf' : Path → Except ReadFailure (List UInt8)}
  {input input' : Except ReadFailure (List UInt8)} {bytes : List UInt8} {source : Source}
  {line : String} {failure : ReadFailure}

/-- The bytes of a source are what was read of it. -/
theorem bytes?_eq_some_iff :
    source.bytes? contentOf input = some bytes ↔
      source.content? contentOf input = some (.ok bytes) := by
  unfold bytes?
  cases source.content? contentOf input with
  | none => simp
  | some content => cases content <;> simp [Except.toOption]

theorem bytes?_of_unreadable (h : source.content? contentOf input = some (.error failure)) :
    source.bytes? contentOf input = none := by
  rw [bytes?, h]
  rfl

/-- A source is made of words, or cannot be read, or holds bytes. -/
theorem held_cases (contentOf : Path → Except ReadFailure (List UInt8))
    (input : Except ReadFailure (List UInt8)) (source : Source) :
    (∃ text, source = .words text) ∨
      (∃ failure, source.content? contentOf input = some (.error failure)) ∨
      ∃ bytes, source.bytes? contentOf input = some bytes := by
  cases hcontent : source.content? contentOf input with
  | none =>
      cases source with
      | words text => exact .inl ⟨text, rfl⟩
      | file path => cases hcontent
      | stdin => cases hcontent
  | some content =>
      right
      cases content with
      | error failure => exact .inl ⟨failure, rfl⟩
      | ok bytes => exact .inr ⟨bytes, bytes?_eq_some_iff.2 hcontent⟩

/-- A source that is not made of words gives the first line of its content. -/
theorem firstLine_of_content? {content : Except ReadFailure (List UInt8)}
    (h : source.content? contentOf input = some content) :
    source.firstLine contentOf input = lineOf source.origin content := by
  cases source with
  | words text => cases h
  | file path =>
      cases h
      rfl
  | stdin =>
      cases h
      rfl

theorem firstLine_of_unreadable (h : source.content? contentOf input = some (.error failure)) :
    source.firstLine contentOf input = .error (.unreadable source.origin failure) :=
  firstLine_of_content? h

/-- A source of bytes is read as a stream. -/
theorem firstLine_of_bytes? (h : source.bytes? contentOf input = some bytes) :
    source.firstLine contentOf input = (Stream.takeLine source.origin bytes).1 :=
  firstLine_of_content? (bytes?_eq_some_iff.1 h)

theorem begins_firstLine (text : String) :
    Begins '\n' '\r' text.toList (String.ofList (Text.firstLine text.toList)).toList
      (afterFirst '\n' text.toList) := by
  rw [String.toList_ofList]
  exact begins_withoutEnding '\n' '\r' text.toList

/-- Words always give a line. -/
theorem gives_words (text : String) :
    Gives contentOf input (.words text) (String.ofList (Text.firstLine text.toList)) :=
  .words (begins_firstLine text)

/-- Reading a source returns the line that the source begins with. -/
theorem firstLine_eq_ok_iff :
    source.firstLine contentOf input = .ok line ↔ source.Gives contentOf input line := by
  constructor
  · intro h
    rcases held_cases contentOf input source with
      ⟨text, rfl⟩ | ⟨failure, hread⟩ | ⟨bytes, hheld⟩
    · cases h
      exact gives_words text
    · -- what cannot be read gives no line
      rw [firstLine_of_unreadable hread] at h
      cases h
    · rw [firstLine_of_bytes? hheld] at h
      rcases Stream.takeLine_eq_ok_iff.1 h with ⟨hbytes, rest, hline⟩
      exact .bytes hheld hbytes hline
  · intro h
    cases h with
    | words begins =>
        -- a text begins with one line only
        rcases (begins_iff (by decide)).1 begins with ⟨hline, -⟩
        rw [firstLine, Text.firstLine, ← hline, String.ofList_toList]
    | bytes held nonempty begins =>
        rw [firstLine_of_bytes? held]
        exact Stream.takeLine_eq_ok_iff.2 ⟨nonempty, _, begins⟩

/-- Reading a source returns an error exactly if there is no line to be had. -/
theorem exists_firstLine_eq_error_iff :
    (∃ e, source.firstLine contentOf input = .error e) ↔ source.Fails contentOf input := by
  constructor
  · rintro ⟨e, h⟩
    rcases held_cases contentOf input source with
      ⟨text, rfl⟩ | ⟨failure, hread⟩ | ⟨bytes, hheld⟩
    · cases h
    · exact .unreadable hread
    · rw [firstLine_of_bytes? hheld] at h
      rcases Stream.exists_takeLine_eq_error_iff.1 ⟨e, h⟩ with rfl | ⟨line, rest, hline, hinvalid⟩
      · exact .empty hheld
      · exact .malformed hheld hline hinvalid
  · intro h
    cases h with
    | unreadable failed => exact ⟨_, firstLine_of_unreadable failed⟩
    | empty held =>
        rw [firstLine_of_bytes? held]
        exact Stream.exists_takeLine_eq_error_iff.2 (.inl rfl)
    | malformed held begins invalid =>
        rw [firstLine_of_bytes? held]
        exact Stream.exists_takeLine_eq_error_iff.2 (.inr ⟨_, _, begins, invalid⟩)

/-- A source gives a line, or reading it fails. -/
theorem gives_or_fails (contentOf : Path → Except ReadFailure (List UInt8))
    (input : Except ReadFailure (List UInt8)) (source : Source) :
    (∃ line, source.Gives contentOf input line) ∨ source.Fails contentOf input := by
  cases h : source.firstLine contentOf input with
  | ok line => exact .inl ⟨line, firstLine_eq_ok_iff.1 h⟩
  | error e => exact .inr (exists_firstLine_eq_error_iff.1 ⟨e, h⟩)

/-- Nothing but the bytes that a source holds decides about its line. -/
theorem Gives.congr (h : source.bytes? contentOf input = source.bytes? contentOf' input')
    (hline : source.Gives contentOf input line) : source.Gives contentOf' input' line := by
  cases hline with
  | words begins => exact .words begins
  | bytes held nonempty begins =>
      rw [h] at held
      exact .bytes held nonempty begins

theorem Fails.congr (h : source.bytes? contentOf input = source.bytes? contentOf' input')
    (hfails : source.Fails contentOf input) : source.Fails contentOf' input' := by
  cases hfails with
  | unreadable failed =>
      -- the other reading of the same source has no bytes either
      rw [bytes?_of_unreadable failed] at h
      rcases held_cases contentOf' input' source with
        ⟨text, rfl⟩ | ⟨failure', hread⟩ | ⟨bytes, hheld⟩
      · cases failed
      · exact .unreadable hread
      · rw [hheld] at h
        cases h
  | empty held =>
      rw [h] at held
      exact .empty held
  | malformed held begins invalid =>
      rw [h] at held
      exact .malformed held begins invalid

/-! ## Words and bytes -/

/-- The bytes of a text begin with the bytes of the line that the text begins with. -/
theorem begins_encode {text line : String} {rest : List Char}
    (h : Begins '\n' '\r' text.toList line.toList rest) :
    Begins Stream.feed Stream.ret (Utf8.encode text) (Utf8.encode line)
      (rest.flatMap String.utf8EncodeChar) := by
  rw [Utf8.encode_eq, Utf8.encode_eq]
  exact h.flatMap Stream.marks_feed Stream.marks_return fun _ => String.utf8EncodeChar_ne_nil

theorem encode_eq_nil_iff {text : String} : Utf8.encode text = [] ↔ text = "" :=
  (Utf8.encode_inj : Utf8.encode text = Utf8.encode "" ↔ text = "")

/-- A text given as words and the bytes of the same text have the same first line: what
stands in front of the first line feed, without the one carriage return directly before
it. The empty text is the exception: as words it is an empty line, as bytes it has no
line. -/
theorem line_of_words_and_bytes (contentOf : Path → Except ReadFailure (List UInt8))
    (input : Except ReadFailure (List UInt8)) (origin text : String) :
    ∃ line rest, Begins '\n' '\r' text.toList line.toList rest ∧
      (words text).firstLine contentOf input = .ok line ∧
      (text ≠ "" → (Stream.takeLine origin (Utf8.encode text)).1 = .ok line) ∧
      (text = "" → line = "" ∧
        (Stream.takeLine origin (Utf8.encode text)).1 = .error (.noLine origin)) ∧
      ((words text).firstLine contentOf input = (Stream.takeLine origin (Utf8.encode text)).1 ↔
        text ≠ "") := by
  have hbegins := begins_firstLine text
  have hbytes : text ≠ "" → (Stream.takeLine origin (Utf8.encode text)).1 =
      .ok (String.ofList (Text.firstLine text.toList)) := by
    intro htext
    exact Stream.takeLine_eq_ok_iff.2 ⟨mt encode_eq_nil_iff.1 htext, _, begins_encode hbegins⟩
  have hempty : text = "" → String.ofList (Text.firstLine text.toList) = "" ∧
      (Stream.takeLine origin (Utf8.encode text)).1 = .error (.noLine origin) := by
    rintro rfl
    exact ⟨rfl, rfl⟩
  refine ⟨_, _, hbegins, rfl, hbytes, hempty, ?_⟩
  constructor
  · -- the empty text is a line as words and the end of the stream as bytes
    rintro hsame rfl
    rw [(hempty rfl).2] at hsame
    cases hsame
  · intro htext
    rw [hbytes htext]
    rfl

end Source

end TapeText
