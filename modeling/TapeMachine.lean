import TapeMachine.CommandLine
import TapeMachine.Editor
import TapeMachine.Highlight
import TapeMachine.Main
import TapeMachine.Proofs.Block.Refinement
import TapeMachine.Proofs.Execution.GuardRails
import TapeMachine.Proofs.Execution.History
import TapeMachine.Proofs.Execution.OpenLoops
import TapeMachine.Proofs.Execution.StepLimit
import TapeMachine.Proofs.Execution.Atomicity
import TapeMachine.Proofs.Source.Stripped
import TapeMachine.Proofs.Execution.Sequence
import TapeMachine.Proofs.Execution.Coverage
import TapeMachine.Proofs.Execution.FaultReport
import TapeMachine.Proofs.Source.Pieces
import TapeMachine.Proofs.Text.Slice
import TapeMachine.Proofs.Settings.ColourValue
import TapeMachine.Proofs.Settings.Reading
import TapeMachine.Proofs.Text.Line
import TapeMachine.Proofs.Source.Lines
import TapeMachine.Proofs.Session.Submission
import TapeMachine.Proofs.Script.Chunks
import TapeMachine.Proofs.Session.Piped
import TapeMachine.Proofs.Session.Observers
import TapeMachine.Proofs.Session.Isolation
import TapeMachine.Proofs.Source.Partners
import TapeMachine.Proofs.Source.Verdict
import TapeMachine.Proofs.Settings.Assignments
import TapeMachine.Proofs.Settings.LastAssignment
import TapeMachine.Proofs.Text.ByteLine
import TapeMachine.Proofs.Execution.Requests
import TapeMachine.Proofs.Execution.RaisedBounds
import TapeMachine.Proofs.Block.Repetition
import TapeMachine.Proofs.Block.Product
import TapeMachine.Proofs.Script.Groups
import TapeMachine.Proofs.Text.Word
import TapeMachine.Proofs.Command.DumpLine
import TapeMachine.Proofs.Settings.ColourCode
import TapeMachine.Proofs.Report.Window
import TapeMachine.Proofs.Report.Culprit
import TapeMachine.Proofs.Text.Painted
import TapeMachine.Proofs.Report.Dump
import TapeMachine.Proofs.Highlight.Runs
import TapeMachine.Proofs.CommandLine.ProgramFile
import TapeMachine.Proofs.CommandLine.Timeout
