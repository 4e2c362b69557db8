import TapeMachine.Execution
import TapeMachine.Palette
import TapeMachine.Printed

/-
What a person reads about a run: faults with the code around them and a caret under the culprit, and
the note on a run that printed nothing.
-/
namespace TapeMachine

/-- A piece of code and the column of the caret below it, counted from zero. -/
structure Window where
  excerpt : List Char
  caret : Nat
  deriving DecidableEq, Repr

namespace Window

def reach : Nat := 32

/-- The surroundings of a position counted from zero, which may lie past the end of the code. -/
def around (code : List Char) (position : Nat) : Window :=
  let start := min (position - reach) code.length
  { excerpt := (code.take (position + reach + 1)).drop start, caret := position - start }

def caretLine (window : Window) : List Char := List.replicate window.caret ' ' ++ ['^']

def text (window : Window) : String :=
  "  " ++ String.ofList window.excerpt ++ "\n  " ++ String.ofList window.caretLine ++ "\n"

end Window

namespace Report

def commentHint : String :=
  "If this is meant to be a comment, precede the line with two forward slashes (//), " ++
  "or enclose text in /* and */ for a multi-line comment."

def attributed (program? : Option String) (message : String) : String :=
  match program? with
  | some program => program ++ ": " ++ message
  | none => message

def headline (palette : Palette) (program? : Option String) (message : String) : String :=
  palette.error.paint (attributed program? message) ++ "\n"

def context (source : List Char) : Option Nat → String
  | some position => (Window.around (Source.strip source) (position - 1)).text
  | none => ""

def advice (palette : Palette) : Fault → String
  | .located _ (.invalidCharacter _) => "\n" ++ palette.hint.paint commentHint ++ "\n"
  | .located _ (.missingTerminator snippet) =>
    "\nSnippet is shown below:\n\n" ++ palette.snippet.paint (String.ofList snippet) ++ "\n"
  | _ => ""

def fault (palette : Palette) (program? : Option String) (source : List Char) (f : Fault) :
    String :=
  headline palette program? f.headline ++ context source f.position? ++ advice palette f

def noOutput (palette : Palette) : String := palette.info.paint "No output provided." ++ "\n"

def outcome (palette : Palette) (program? : Option String) (source : List Char)
    (o : Outcome) : Printed :=
  let output := String.ofList o.output.toList
  match o.result with
  | .ok summary =>
    if summary.producedOutput then { out := output ++ "\n" } else { err := noOutput palette }
  | .error (.stepLimitExceeded limit) =>
    { out := output ++ "\n", err := (Fault.stepLimitExceeded limit).message ++ "\n" }
  | .error f => { out := output ++ "\n", err := fault palette program? source f }

end Report

end TapeMachine
