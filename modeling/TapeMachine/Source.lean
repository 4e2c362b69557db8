import TapeMachine.Fault
import TapeMachine.Source.Bracket
import TapeMachine.Source.Comment

/-
From a program text to the code a machine runs. A text is accepted if no comment marker is left
after stripping and it has as many opening as closing brackets; their order and all other
characters are left to the run.
-/
namespace TapeMachine.Source

/-- The position, counted from one, and the cause for which stripped code is rejected. -/
def defect? (code : List Char) : Option (Nat × Cause) :=
  match marker? code with
  | some index => some (index + 1, .unendedComment)
  | none => (Pairing.scan code).firstUnpaired?.map (· + 1, .unterminatedLoops)

def sanitize (source : List Char) : Except Fault (List Char) :=
  let code := strip source
  match defect? code with
  | some (position, cause) => .error (.located position cause)
  | none => .ok code

end TapeMachine.Source
