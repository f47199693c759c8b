import TapeText.Command.Arguments
import TapeText.Command.Run
import TapeText.Log.Directives
import TapeText.Proofs.Line.Source

/-!
# TapeText.Proofs.Command.Ending — how a run of the command ends

A run ends in one of five ways: the arguments are refused, the help is shown,
two sources are named at once, the source gives no line, or the program for its
line is printed. Each way has one exit code, and only the last one puts
anything on the standard output. There is no way but these, so exit code and
output tell which one it was.

* `Invocation.Asks`, `Invocation.Reads` — what the arguments have led to before
  a line is read;
* `Ends`, `ends_run` — the five ways;
* `run_of_gives` and the lemmas beside it — the way that a run takes;
* `exits_of_run` — exit codes and outputs.
-/

namespace TapeText.Command

/-! ## Before the line is read -/

/-- The arguments are accepted, and they do not ask for help. -/
structure Invocation.Asks (i : Invocation) (request : Request) : Prop where
  accepted : i.request = .ok request
  noHelp : request.help = false

/-- The arguments lead to a source that a line is to be read from. -/
structure Invocation.Reads (i : Invocation) (request : Request) (source : Source) : Prop
    extends i.Asks request where
  selected : Source.select request.words request.file = .ok source

/-- A command with nothing around it but a standard input: no environment, no
files and no terminals. -/
def Invocation.bare (arguments : List (List UInt8))
    (input : Except ReadFailure (List UInt8)) : Invocation where
  program := "text2bf"
  arguments := arguments
  readArguments := Request.read
  readFilter := Log.Filter.ofText
  environment _ := none
  contentOf _ := .error .notFound
  input := input
  terminalInput := false
  terminalOutput := false
  terminalErrors := false

/-- Two sources are named at once. -/
def Request.Conflicting (request : Request) : Prop :=
  request.words ≠ [] ∧ request.file.isSome

variable {i : Invocation} {request : Request} {source : Source} {refusal line : String}

/-- Words and a file together are what makes a selection fail. -/
theorem exists_select_eq_error_iff :
    (∃ e, Source.select request.words request.file = .error e) ↔ request.Conflicting := by
  unfold Request.Conflicting
  cases hwords : request.words with
  | nil => cases hfile : request.file <;> simp [Source.select]
  | cons word words => cases hfile : request.file <;> simp [Source.select]

/-- A request names two sources, or it selects one. -/
theorem Invocation.Asks.cases (h : i.Asks request) :
    request.Conflicting ∨ ∃ source, i.Reads request source := by
  cases hselect : Source.select request.words request.file with
  | error e => exact .inl (exists_select_eq_error_iff.1 ⟨e, hselect⟩)
  | ok source => exact .inr ⟨source, h, hselect⟩

/-! ## The output for a line -/

/-- The line above a program, in colour on a terminal. -/
def headerLine (terminal : Bool) : String := Style.header.paintIf terminal headerText ++ "\n"

def headerFor (settings : Settings) (terminal : Bool) : String :=
  if settings.header then headerLine terminal else ""

theorem headerFor_cases (settings : Settings) (terminal : Bool) :
    headerFor settings terminal = "" ∨ headerFor settings terminal = headerLine terminal := by
  unfold headerFor
  split
  · exact .inr rfl
  · exact .inl rfl

theorem outputFor_eq (settings : Settings) (terminal : Bool) (line : String) :
    outputFor settings terminal line =
      headerFor settings terminal ++ String.ofList (Code.program line) ++ "\n" := rfl

/-! ## The way that a run takes -/

/-- Arguments that are refused end the run with exit code 2. -/
theorem run_of_refusal (h : i.request = .error refusal) :
    (run i).exit = 2 ∧ (run i).output = "" := by
  -- the run is over before a source is selected, and errors are not output
  unfold run start
  rw [h]
  exact ⟨rfl, rfl⟩

/-- Help is shown even if two sources are named. -/
theorem run_of_help (h : i.request = .ok request)
    (hhelp : request.help = true) : (run i).exit = 0 ∧ (run i).output = "" := by
  unfold run start
  rw [h]
  dsimp only
  rw [if_pos hhelp]
  exact ⟨rfl, rfl⟩

/-- Two sources at once end it with exit code 2, too. -/
theorem run_of_conflicting (h : i.Asks request) (hsources : request.Conflicting) :
    (run i).exit = 2 ∧ (run i).output = "" := by
  rcases exists_select_eq_error_iff.2 hsources with ⟨e, hselect⟩
  unfold run start
  rw [h.accepted]
  dsimp only
  rw [h.noHelp, hselect]
  exact ⟨rfl, rfl⟩

/-- Once a source is selected, all that is left is to read it. -/
theorem run_of_reads (h : i.Reads request source) (errors : String) :
    (run i).exit = ((Awaiting.mk source (i.settings request) errors).finish i).exit ∧
      (run i).output = ((Awaiting.mk source (i.settings request) errors).finish i).output := by
  -- what was logged before the source is read is no output either
  unfold run start
  rw [h.accepted]
  dsimp only
  rw [h.noHelp, h.selected]
  exact ⟨rfl, rfl⟩

/-- A source that gives no line ends it with exit code 1. -/
theorem run_of_fails (h : i.Reads request source) (hfails : source.Fails i.contentOf i.input) :
    (run i).exit = 1 ∧ (run i).output = "" := by
  rcases Source.exists_firstLine_eq_error_iff.2 hfails with ⟨e, he⟩
  rcases run_of_reads h "" with ⟨hexit, houtput⟩
  rw [hexit, houtput, Awaiting.finish, he]
  exact ⟨rfl, rfl⟩

/-- A line ends it with exit code 0, and its program is printed. -/
theorem run_of_gives (h : i.Reads request source)
    (hline : source.Gives i.contentOf i.input line) :
    (run i).exit = 0 ∧
      (run i).output = outputFor (i.settings request) i.terminalOutput line := by
  rcases run_of_reads h "" with ⟨hexit, houtput⟩
  rw [hexit, houtput, Awaiting.finish, Source.firstLine_eq_ok_iff.2 hline]
  exact ⟨rfl, rfl⟩

/-! ## There is no other way -/

/-- How a run ends, with its exit code and what it puts on the standard
output. -/
inductive Ends (i : Invocation) : Nat → String → Prop
  | refused {refusal : String} (refused : i.request = .error refusal) :
      Ends i 2 ""
  | helped {request : Request} (accepted : i.request = .ok request)
      (help : request.help = true) : Ends i 0 ""
  | conflicting {request : Request} (asks : i.Asks request)
      (conflicting : request.Conflicting) : Ends i 2 ""
  | failed {request : Request} {source : Source} (reads : i.Reads request source)
      (fails : source.Fails i.contentOf i.input) : Ends i 1 ""
  | printed {request : Request} {source : Source} {line : String}
      (reads : i.Reads request source) (gives : source.Gives i.contentOf i.input line) :
      Ends i 0 (outputFor (i.settings request) i.terminalOutput line)

namespace Ends

variable {exit : Nat} {output : String}

/-- A run that has this exit code and this output ends in this way. -/
theorem of_run (h : Ends i exit output) (hrun : (run i).exit = exit ∧ (run i).output = output) :
    Ends i (run i).exit (run i).output := by
  rcases hrun with ⟨hexit, houtput⟩
  rw [hexit, houtput]
  exact h

/-- Only a line puts anything on the standard output. -/
theorem of_output_ne_empty (h : Ends i exit output) (houtput : output ≠ "") :
    ∃ request source line, i.Reads request source ∧ source.Gives i.contentOf i.input line := by
  cases h with
  | printed reads gives => exact ⟨_, _, _, reads, gives⟩
  -- every other ending leaves the output empty
  | _ => exact absurd rfl houtput

theorem of_exit_one (h : Ends i 1 output) :
    ∃ request source, i.Reads request source ∧ source.Fails i.contentOf i.input := by
  cases h with
  -- the other endings have another exit code
  | failed reads fails => exact ⟨_, _, reads, fails⟩

theorem of_exit_two (h : Ends i 2 output) :
    (∃ refusal, i.request = .error refusal) ∨
      ∃ request, i.Asks request ∧ request.Conflicting := by
  cases h with
  | refused refused => exact .inl ⟨_, refused⟩
  | conflicting asks conflicting => exact .inr ⟨_, asks, conflicting⟩

end Ends

/-- Every run ends in one of the five ways. -/
theorem ends_run (i : Invocation) : Ends i (run i).exit (run i).output := by
  -- the cases follow the order in which the command decides
  cases haccepted : i.request with
  | error refusal => exact (Ends.refused haccepted).of_run (run_of_refusal haccepted)
  | ok request =>
      cases hhelp : request.help with
      | true => exact (Ends.helped haccepted hhelp).of_run (run_of_help haccepted hhelp)
      | false =>
          have hasks : i.Asks request := ⟨haccepted, hhelp⟩
          rcases hasks.cases with hsources | ⟨source, hreads⟩
          · exact (Ends.conflicting hasks hsources).of_run (run_of_conflicting hasks hsources)
          · rcases source.gives_or_fails i.contentOf i.input with ⟨line, hline⟩ | hfails
            · exact (Ends.printed hreads hline).of_run (run_of_gives hreads hline)
            · exact (Ends.failed hreads hfails).of_run (run_of_fails hreads hfails)

/-- The standard output stays empty unless a line was obtained. Then it is the
header line, if the settings ask for one, the program and a line feed, and the
exit code is 0. Exit code 2 is for refused arguments and for two sources at
once, exit code 1 is for sources that give no line, whatever the settings are.
Help ends with exit code 0 and an empty output, even if two sources are
named. -/
theorem exits_of_run (i : Invocation) :
    ((run i).output ≠ "" →
        ∃ request source line, i.Reads request source ∧
          source.Gives i.contentOf i.input line) ∧
      (∀ request source line, i.Reads request source →
        source.Gives i.contentOf i.input line →
          (run i).exit = 0 ∧
            (run i).output = headerFor (i.settings request) i.terminalOutput ++
              String.ofList (Code.program line) ++ "\n") ∧
      ((run i).exit = 2 ↔
        (∃ refusal, i.request = .error refusal) ∨
          ∃ request, i.Asks request ∧ request.words ≠ [] ∧ request.file.isSome) ∧
      ((run i).exit = 1 ↔
        ∃ request source, i.Reads request source ∧ source.Fails i.contentOf i.input) ∧
      (∀ request, i.request = .ok request → request.help = true →
        (run i).exit = 0 ∧ (run i).output = "") := by
  -- one way round each clause is an ending, the other way round it follows from there being no
  -- other
  have hends := ends_run i
  refine ⟨hends.of_output_ne_empty, ?_, ?_, ?_, ?_⟩
  · intro request source line hreads hline
    exact run_of_gives hreads hline
  · constructor
    · intro hexit
      rw [hexit] at hends
      exact hends.of_exit_two
    · rintro (⟨refusal, hrefused⟩ | ⟨request, hasks, hsources⟩)
      · exact (run_of_refusal hrefused).1
      · exact (run_of_conflicting hasks hsources).1
  · constructor
    · intro hexit
      rw [hexit] at hends
      exact hends.of_exit_one
    · rintro ⟨request, source, hreads, hfails⟩
      exact (run_of_fails hreads hfails).1
  · intro request haccepted hhelp
    exact run_of_help haccepted hhelp

-- No header line is printed before the standard input turns out not to be UTF-8.
example :
    (run (.bare [Text.Utf8.encode "--header"] (.ok [0xFF]))).exit = 1 ∧
      (run (.bare [Text.Utf8.encode "--header"] (.ok [0xFF]))).output = "" := by
  decide +kernel

end TapeText.Command
