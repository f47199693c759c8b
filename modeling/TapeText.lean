import TapeText.Machine.Run
import TapeText.Main
import TapeText.Proofs.Code.Alphabet
import TapeText.Proofs.Code.Gaps
import TapeText.Proofs.Code.Length
import TapeText.Proofs.Code.Meaning
import TapeText.Proofs.Code.Pieces
import TapeText.Proofs.Code.Repetition
import TapeText.Proofs.Code.Seams
import TapeText.Proofs.Code.Shape
import TapeText.Proofs.Code.Shifts
import TapeText.Proofs.Code.Splits
import TapeText.Proofs.Command.Ending
import TapeText.Proofs.Command.Presentation
import TapeText.Proofs.Command.RoundTrip
import TapeText.Proofs.Execution.Alone
import TapeText.Proofs.Execution.Overshoot
import TapeText.Proofs.Execution.Parting
import TapeText.Proofs.Execution.RoundTrip
import TapeText.Proofs.Execution.Segment
import TapeText.Proofs.Execution.Site
import TapeText.Proofs.Execution.Steps
import TapeText.Proofs.Execution.Succession
import TapeText.Proofs.Execution.Units
import TapeText.Proofs.Execution.View
import TapeText.Proofs.Execution.Wrapping
import TapeText.Proofs.Line.Reader
import TapeText.Proofs.Line.Source
import TapeText.Proofs.Line.Stream
import TapeText.Proofs.Loop.Balance
import TapeText.Proofs.Loop.Bounds
import TapeText.Proofs.Loop.Ranking
import TapeText.Proofs.Loop.Search
import TapeText.Proofs.Machine.Concatenation
import TapeText.Proofs.Machine.Limit
import TapeText.Proofs.Machine.Lockstep
import TapeText.Proofs.Machine.Moment
import TapeText.Proofs.Machine.Nesting
import TapeText.Proofs.Machine.Tape
import TapeText.Proofs.Settings.Precedence
import TapeText.Proofs.Settings.Shadowing
import TapeText.Proofs.Text.Decode
import TapeText.Proofs.Text.FirstLine
import TapeText.Proofs.Text.Lines
import TapeText.Proofs.Text.Pairing
import TapeText.Proofs.Text.Sums
import TapeText.Proofs.Text.Utf8
import TapeText.Proofs.Code.Bounded
import TapeText.Proofs.Machine.History
import TapeText.Proofs.Machine.Rejection
