/-!
# TapeText.Command.Usage — the help text
-/

namespace TapeText.Command

/-- How to use the command, with the name it was called by. -/
def usage (program : String) : String :=
  "Usage:\n  " ++ program ++
  " [--header] [--no-prompt] [TEXT...]        # Encode TEXT args (joined with spaces), or one line of STDIN\n  " ++
  program ++
  " [--header] [--no-prompt] --file <PATH>    # Encode the first line of a file

Options:
  --file,  -f <PATH>  Read the line from PATH instead of TEXT or STDIN
  --header            Print \"Generated Brainfuck code:\" before the program
  --no-prompt         Do not prompt when STDIN is a terminal
  --help,  -h         Show this help

Description:
  Generates Brainfuck code that, when executed, prints the input line followed by a newline.

Environment:
  TEXT2BF_HEADER      1/true/yes to print the header (overridden by --header)
  TEXT2BF_PROMPT      0/false/no to disable the prompt (overridden by --no-prompt)
  TEXT2BF_LOG         Log filter for diagnostics on stderr (default: warn)

Notes:
  - Only the first line of input is used; the trailing line ending is dropped.
  - Characters are encoded as UTF-16 code units; run the output on an interpreter with 16-bit or wider cells.
  - Output is Brainfuck code printed to stdout followed by a newline.

"

end TapeText.Command
