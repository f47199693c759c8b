import TapeText.Proofs.Code.Alphabet
import TapeText.Proofs.Command.Ending

/-!
# TapeText.Proofs.Command.Presentation — what settings can change

Flags, environment, settings file and terminals decide what is shown around a
program, and what goes to the error stream. The source alone decides whether
there is a program, and which one. So two runs that read the same source show
the same program, and at most a header line in front of one of them or of both
tells them apart.

* `IsHeader` — what may be in front of a program;
* `getLast?_lines_output` — the program is the last line of the output;
* `program_of_same_source` — two runs that read the same source.
-/

namespace TapeText.Command

open Text (lines pieces withoutEnding)

/-- Nothing, or the header line as it is printed on a terminal or elsewhere. -/
def IsHeader (header : String) : Prop :=
  header = "" ∨ ∃ terminal, header = headerLine terminal

theorem isHeader_headerFor (settings : Settings) (terminal : Bool) :
    IsHeader (headerFor settings terminal) := by
  rcases headerFor_cases settings terminal with h | h
  · exact .inl h
  · exact .inr ⟨terminal, h⟩

/-! ## The program is a line -/

/-- A program has no line feed in it. -/
theorem feed_notMem_program (line : String) : '\n' ∉ Code.program line := by
  intro h
  exact absurd (Code.program_subset line h) (by decide)

/-- Nor has it a carriage return. -/
theorem ret_notMem_program (line : String) : '\r' ∉ Code.program line := by
  intro h
  exact absurd (Code.program_subset line h) (by decide)

/-- A header is a complete line, if there is one. -/
theorem IsHeader.complete {header : String} (h : IsHeader header) :
    header.toList = [] ∨ header.toList.getLast? = some '\n' := by
  rcases h with rfl | ⟨terminal, rfl⟩
  · exact .inl rfl
  · right
    rw [headerLine, String.toList_append]
    exact List.getLast?_concat

/-- The program is the last line of what is printed. -/
theorem getLast?_lines_output {header : String} (h : IsHeader header) (line : String) :
    (lines (header ++ String.ofList (Code.program line) ++ "\n").toList).getLast? =
      some (Code.program line) := by
  -- a carriage return at its end would be taken for a part of the line ending
  have hlast : (Code.program line).getLast? ≠ some '\r' := by
    intro hret
    exact ret_notMem_program line (List.mem_of_getLast? hret)
  have hchars : (header ++ String.ofList (Code.program line) ++ "\n").toList =
      header.toList ++ (Code.program line ++ ['\n']) := by
    rw [String.toList_append, String.toList_append, String.toList_ofList, List.append_assoc]
    rfl
  rw [hchars, lines, List.getLast?_map,
    Text.getLast?_pieces_append h.complete (feed_notMem_program line), Option.map_some,
    Text.withoutEnding_concat hlast]

/-! ## Two runs -/

variable {i j : Invocation} {request request' : Request}

/-- Two runs that select the same source, and find the same in it, end with the
same exit code. Either both print nothing, or both print the same program, each
with at most a header line in front of it. -/
theorem program_of_same_source (hi : i.Asks request) (hj : j.Asks request')
    (hselect : Source.select request.words request.file =
      Source.select request'.words request'.file)
    (hheld : ∀ source, Source.select request.words request.file = .ok source →
      source.bytes? i.contentOf i.input = source.bytes? j.contentOf j.input) :
    (run i).exit = (run j).exit ∧
      (((run i).output = "" ∧ (run j).output = "") ∨
        ∃ line header header', '\n' ∉ Code.program line ∧ IsHeader header ∧ IsHeader header' ∧
          (run i).output = header ++ String.ofList (Code.program line) ++ "\n" ∧
          (run j).output = header' ++ String.ofList (Code.program line) ++ "\n") := by
  cases hsource : Source.select request.words request.file with
  | error e =>
      -- two sources at once, for both of them
      have hconflict := exists_select_eq_error_iff.1 ⟨e, hsource⟩
      have hconflict' := exists_select_eq_error_iff.1 ⟨e, hselect.symm.trans hsource⟩
      rcases run_of_conflicting hi hconflict with ⟨hexit, houtput⟩
      rcases run_of_conflicting hj hconflict' with ⟨hexit', houtput'⟩
      exact ⟨hexit.trans hexit'.symm, .inl ⟨houtput, houtput'⟩⟩
  | ok source =>
      have hreads : i.Reads request source := ⟨hi, hsource⟩
      have hreads' : j.Reads request' source := ⟨hj, hselect.symm.trans hsource⟩
      -- the same source, and the same bytes in it, give the same line or none
      have hbytes := hheld source hsource
      rcases source.gives_or_fails i.contentOf i.input with ⟨line, hline⟩ | hfails
      · rcases run_of_gives hreads hline with ⟨hexit, houtput⟩
        rcases run_of_gives hreads' (hline.congr hbytes) with ⟨hexit', houtput'⟩
        refine ⟨hexit.trans hexit'.symm, .inr ⟨line, _, _, feed_notMem_program line, ?_, ?_,
          houtput, houtput'⟩⟩
        · exact isHeader_headerFor _ _
        · exact isHeader_headerFor _ _
      · rcases run_of_fails hreads hfails with ⟨hexit, houtput⟩
        rcases run_of_fails hreads' (hfails.congr hbytes) with ⟨hexit', houtput'⟩
        exact ⟨hexit.trans hexit'.symm, .inl ⟨houtput, houtput'⟩⟩

/-- A command on three terminals, with a header line to print, records to log and
a settings file that is not UTF-8. -/
def Invocation.onTerminals (input : List UInt8) : Invocation where
  program := "text2bf"
  arguments := [Text.Utf8.encode "--header", Text.Utf8.encode "--no-prompt"]
  readArguments := Request.read
  readFilter := Log.Filter.ofText
  environment name :=
    if name = "TEXT2BF_LOG" then some (Text.Utf8.encode "debug")
    else if name = "HOME" then some (Text.Utf8.encode "home")
    else none
  contentOf _ := .ok [0xFF]
  input := .ok input
  terminalInput := true
  terminalOutput := true
  terminalErrors := true

/-- A run with nothing around it, and one with all that can be set. -/
theorem program_of_same_source_on_terminals :
    (Invocation.bare [] (.ok [65, 10])).Asks {} ∧
      (Invocation.onTerminals [65, 10]).Asks { header := true, noPrompt := true } ∧
      (run (.bare [] (.ok [65, 10]))).exit = (run (.onTerminals [65, 10])).exit ∧
      (((run (.bare [] (.ok [65, 10]))).output = "" ∧ (run (.onTerminals [65, 10])).output = "") ∨
        ∃ line header header', '\n' ∉ Code.program line ∧ IsHeader header ∧ IsHeader header' ∧
          (run (.bare [] (.ok [65, 10]))).output =
            header ++ String.ofList (Code.program line) ++ "\n" ∧
          (run (.onTerminals [65, 10])).output =
            header' ++ String.ofList (Code.program line) ++ "\n") := by
  have hbare : (Invocation.bare [] (.ok [65, 10])).Asks {} := ⟨rfl, rfl⟩
  have hterminals : (Invocation.onTerminals [65, 10]).Asks { header := true, noPrompt := true } :=
    ⟨rfl, rfl⟩
  refine ⟨hbare, hterminals, program_of_same_source hbare hterminals rfl ?_⟩
  intro source hsource
  cases hsource
  rfl

end TapeText.Command
