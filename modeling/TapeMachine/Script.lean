import TapeMachine.Text.Blank
import TapeMachine.Text.Encoding
import TapeMachine.Text.Line

/-
Scripts for a session: lines of code, and between them lines that are commands. Each command line is
a chunk of its own, and the lines of code between two of them are one program.
-/
namespace TapeMachine.Script

def isCommandLine (line : List Char) : Bool := (Text.trimStart line).head? = some ':'

/-- The chunk of the program lines collected so far, the latest first, unless they are blank. -/
def program (pending : List (List Char)) : List (List Char) :=
  let code := Text.unlines pending.reverse
  if code.all Text.isBlank then [] else [code]

def chunksAfter (pending : List (List Char)) : List (List Char) → List (List Char)
  | [] => program pending
  | line :: rest =>
    if isCommandLine line then program pending ++ Text.trim line :: chunksAfter [] rest
    else chunksAfter (line :: pending) rest

def chunks (script : List Char) : List (List Char) := chunksAfter [] (Text.lines script)

def ofBytes? (bytes : List UInt8) : Option (List Char) :=
  if bytes.isEmpty then none else Text.decode? bytes

end TapeMachine.Script
