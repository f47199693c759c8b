import TapeText.Proofs.Command.Presentation
import TapeText.Proofs.Execution.RoundTrip

/-!
# TapeText.Proofs.Command.RoundTrip — from the source to the printed line

The command takes the first line of its source and prints a program; the program
prints that line again. It makes no difference whether the line comes from
words, from a file or from the standard input, and what the source holds behind
the line is not looked at. There is one way around this: the file that the line
is read from may be the settings file too. Then what is behind the line can
switch the header on or off, but it still has no say in the program.

* `Prints`, `PrintsFor` — a program for a line, and a run that prints one;
* `header_settings_congr` — what the header depends on;
* `run_of_first_line` — from the source to the printed line;
* `outputs_of_own_settings` — a settings file as the source.
-/

namespace TapeText.Command

open Text (lines)

/-! ## What a run prints -/

/-- On a fresh machine of either kind, given enough steps, the program prints the
units of the characters of the line and a line feed, and that is read back as the
line. -/
def Prints (program : List Char) (line : String) : Prop :=
  ∀ kind limit, 66823 * (Text.units line).length ≤ limit →
    ∃ m, (Machine.fresh kind).run program limit = (m, .ok ()) ∧
      m.printed.toList = Text.unitsOfChars line.toList ++ [10] ∧
      Text.decode? m.printed.toList = some (line ++ "\n")

theorem prints_program (line : String) : Prints (Code.program line) line := by
  intro kind limit hlimit
  have hcost := Nat.le_trans (Execution.lineCost_le .finished line) hlimit
  exact Execution.exists_run_printed kind .finished line hcost

/-- The run succeeds, and the last line of its output is a program for the line.
Nothing but the header line may stand above it. -/
structure PrintsFor (i : Invocation) (line : String) : Prop where
  exit_eq : (run i).exit = 0
  output_eq : ∃ header program, (header = "" ∨ header = headerLine i.terminalOutput) ∧
    (run i).output = header ++ String.ofList program ++ "\n" ∧
    (lines (run i).output.toList).getLast? = some program ∧ Prints program line

variable {i j : Invocation} {request request' : Request} {source : Source} {line : String}

/-- The last line of the output is the program, whether or not there is a header. -/
theorem getLast?_lines_run (h : i.Reads request source)
    (hline : source.Gives i.contentOf i.input line) :
    (lines (run i).output.toList).getLast? = some (Code.program line) := by
  rw [(run_of_gives h hline).2, outputFor_eq]
  exact getLast?_lines_output (isHeader_headerFor _ _) line

/-- A run that gets a line prints a program for it. -/
theorem printsFor_of_gives (h : i.Reads request source)
    (hline : source.Gives i.contentOf i.input line) : PrintsFor i line := by
  rcases run_of_gives h hline with ⟨hexit, houtput⟩
  exact ⟨hexit, headerFor (i.settings request) i.terminalOutput, Code.program line,
    headerFor_cases _ _, houtput, getLast?_lines_run h hline, prints_program line⟩

/-! ## What the header depends on -/

/-- Where the settings file is looked for depends on the environment alone. -/
theorem settingsPath?_congr (henv : j.environment = i.environment) :
    j.settingsPath? = i.settingsPath? := by
  unfold Invocation.settingsPath? Invocation.lookup
  rw [henv]

/-- The settings file of two commands is the same if they look for it at the
same place, and find the same there. -/
theorem settingsFile?_congr (henv : j.environment = i.environment)
    (hfile : ∀ path, i.settingsPath? = some path →
      j.contentOf (Text.Utf8.encode path) = i.contentOf (Text.Utf8.encode path)) :
    j.settingsFile? = i.settingsFile? := by
  unfold Invocation.settingsFile?
  rw [settingsPath?_congr henv]
  -- without a path there is no file to compare
  cases hpath : i.settingsPath? with
  | none => rfl
  | some path =>
      rw [Option.bind_eq_bind, Option.bind_some, Option.bind_eq_bind, Option.bind_some,
        hfile path hpath]

/-- The header depends on its flag, the environment and the settings file. -/
theorem header_settings_congr (hheader : request'.header = request.header)
    (henv : j.environment = i.environment)
    (hfile : ∀ path, i.settingsPath? = some path →
      j.contentOf (Text.Utf8.encode path) = i.contentOf (Text.Utf8.encode path)) :
    (j.settings request').header = (i.settings request).header := by
  unfold Invocation.settings Settings.resolve Invocation.preferences Invocation.lookup
  rw [hheader, henv, settingsFile?_congr henv hfile]

/-! ## Runs -/

/-- A run that selects a source with a first line succeeds and prints a program
for this line. Every other run with the same first line ends with the same exit
code and the same last line of output, whatever its source holds behind the
line. The whole output is the same if nothing else than the sources tells the
two runs apart, and neither of these is the settings file. -/
theorem run_of_first_line (hreads : i.Reads request source)
    (hline : source.Gives i.contentOf i.input line) :
    PrintsFor i line ∧
      ∀ j request' source', j.Reads request' source' →
        source'.Gives j.contentOf j.input line →
          (run j).exit = (run i).exit ∧
            (lines (run j).output.toList).getLast? = (lines (run i).output.toList).getLast? ∧
            (request'.header = request.header → j.environment = i.environment →
              j.terminalOutput = i.terminalOutput →
              (∀ path, i.settingsPath? = some path →
                j.contentOf (Text.Utf8.encode path) = i.contentOf (Text.Utf8.encode path)) →
              (run j).output = (run i).output) := by
  rcases run_of_gives hreads hline with ⟨hexit, houtput⟩
  refine ⟨printsFor_of_gives hreads hline, ?_⟩
  intro j request' source' hreads' hline'
  rcases run_of_gives hreads' hline' with ⟨hexit', houtput'⟩
  refine ⟨hexit'.trans hexit.symm, ?_, ?_⟩
  · -- both last lines are the program for this line
    rw [getLast?_lines_run hreads hline, getLast?_lines_run hreads' hline']
  · -- in front of it there is the header, and that is the same for both
    intro hheader henv hterminal hfile
    rw [houtput, houtput', outputFor_eq, outputFor_eq, headerFor, headerFor,
      header_settings_congr hheader henv hfile, hterminal]

/-- Bytes behind the first line that are not UTF-8 are not noticed. -/
theorem run_of_first_line_malformed_rest :
    (Invocation.bare [] (.ok [65, 13, 10, 0xFF])).Reads {} .stdin ∧
      Source.Gives (Invocation.bare [] (.ok [65, 13, 10, 0xFF])).contentOf
        (.ok [65, 13, 10, 0xFF]) .stdin "A" ∧
      PrintsFor (.bare [] (.ok [65, 13, 10, 0xFF])) "A" ∧
      (run (.bare [] (.ok [65]))).output = (run (.bare [] (.ok [65, 13, 10, 0xFF]))).output := by
  have hreads : (Invocation.bare [] (.ok [65, 13, 10, 0xFF])).Reads {} .stdin :=
    ⟨⟨rfl, rfl⟩, rfl⟩
  have hreads' : (Invocation.bare [] (.ok [65])).Reads {} .stdin := ⟨⟨rfl, rfl⟩, rfl⟩
  have hline : Source.Gives (Invocation.bare [] (.ok [65, 13, 10, 0xFF])).contentOf
      (.ok [65, 13, 10, 0xFF]) .stdin "A" := by
    apply Source.Gives.bytes rfl (List.cons_ne_nil _ _)
    exact ⟨by decide, .inl rfl⟩
  have hline' : Source.Gives (Invocation.bare [] (.ok [65])).contentOf (.ok [65]) .stdin "A" := by
    apply Source.Gives.bytes rfl (List.cons_ne_nil _ _)
    exact ⟨by decide, .inr (.inr ⟨rfl, rfl⟩)⟩
  rcases run_of_first_line hreads hline with ⟨hprints, hothers⟩
  rcases hothers _ {} .stdin hreads' hline' with ⟨-, -, houtput⟩
  exact ⟨hreads, hline, hprints, houtput rfl rfl rfl fun _ _ => rfl⟩

/-! ## A settings file as the source -/

/-- The path of a settings file in the working directory. -/
def ownPath : Path := Text.Utf8.encode Invocation.settingsFileName

/-- A command whose file option names its settings file. -/
def Invocation.ownSettings (content : String) : Invocation :=
  { Invocation.bare [Text.Utf8.encode "--file", ownPath] (.ok []) with
    environment name := if name = "XDG_CONFIG_HOME" then some [] else none
    contentOf path :=
      if path = ownPath then .ok (Text.Utf8.encode content) else .error .notFound }

theorem ownSettings_contentOf (content : String) :
    (Invocation.ownSettings content).contentOf ownPath = .ok (Text.Utf8.encode content) := by
  simp only [Invocation.ownSettings, if_true]

theorem ownSettings_reads (content : String) :
    (Invocation.ownSettings content).Reads { file := some ownPath } (.file ownPath) :=
  ⟨⟨rfl, rfl⟩, rfl⟩

/-- The first line is empty if the file begins with a line feed. -/
theorem ownSettings_gives (rest : String) :
    (Source.file ownPath).Gives (Invocation.ownSettings ("\n" ++ rest)).contentOf (.ok []) "" := by
  have hcontent : Text.Utf8.encode ("\n" ++ rest) = 10 :: Text.Utf8.encode rest := by
    rw [Text.Utf8.encode_eq, Text.Utf8.encode_eq, String.toList_append]
    rfl
  have hheld : (Source.file ownPath).bytes?
      (Invocation.ownSettings ("\n" ++ rest)).contentOf (.ok []) =
        some (10 :: Text.Utf8.encode rest) := by
    rw [Source.bytes?_eq_some_iff, ← hcontent]
    exact congrArg some (ownSettings_contentOf ("\n" ++ rest))
  apply Source.Gives.bytes hheld (List.cons_ne_nil _ _)
  exact ⟨List.not_mem_nil, .inr (.inl ⟨rfl, by decide⟩)⟩

/-- Two settings files that begin with the same empty line. What one of them
holds behind it switches the header on, and so the outputs differ. -/
theorem outputs_of_own_settings :
    (Invocation.ownSettings ("\n" ++ "[output]\nheader=1\n")).Reads { file := some ownPath }
        (.file ownPath) ∧
      (Invocation.ownSettings ("\n" ++ "")).Reads { file := some ownPath } (.file ownPath) ∧
      (Source.file ownPath).Gives
        (Invocation.ownSettings ("\n" ++ "[output]\nheader=1\n")).contentOf (.ok []) "" ∧
      (Source.file ownPath).Gives (Invocation.ownSettings ("\n" ++ "")).contentOf (.ok []) "" ∧
      (run (.ownSettings ("\n" ++ "[output]\nheader=1\n"))).output =
        "Generated Brainfuck code:\n>++++++++++.<\n" ∧
      (run (.ownSettings ("\n" ++ ""))).output = ">++++++++++.<\n" := by
  -- the same line both times; the two outputs are evaluated
  refine ⟨ownSettings_reads _, ownSettings_reads _, ownSettings_gives _, ownSettings_gives _,
    ?_, ?_⟩
  · decide +kernel
  · decide +kernel

end TapeText.Command
