/-
Why a program is rejected or stopped. A cause belongs to the position of an instruction, counted
from one in the stripped program; a run that is cut short from outside has no position. All wording
is in this module.
-/
namespace TapeMachine

inductive Side
  | left
  | right
  deriving DecidableEq, Repr

def Side.name : Side → String
  | .left => "leftward"
  | .right => "rightward"

inductive Cause
  /-- A comment marker is left after stripping. -/
  | unendedComment
  /-- The numbers of opening and closing brackets differ. -/
  | unterminatedLoops
  /-- A closing bracket was reached while no loop was open. -/
  | unexpectedTerminator
  /-- The program ended inside a loop; `snippet` starts at the bracket of the innermost one. -/
  | missingTerminator (snippet : List Char)
  | invalidCharacter (c : Char)
  /-- `pointer` is where the pointer stood before the refused move. -/
  | outOfBounds (pointer : Nat) (side : Side)
  | overflow (limit : Nat)
  | subZero
  | wrongLength (received : List Char)
  | outOfRange (c : Char)
  | exceedsLimit (c : Char) (limit : Nat)
  | unprintable (value : Nat)
  /-- The source of input failed, with its own description. -/
  | inputFailure (text : String)
  deriving DecidableEq, Repr

inductive Fault
  | located (position : Nat) (cause : Cause)
  | stepLimitExceeded (limit : Nat)
  | cancelled
  deriving DecidableEq, Repr

namespace Cause

def family : Cause → String
  | .unendedComment | .unterminatedLoops | .unexpectedTerminator | .missingTerminator _
  | .invalidCharacter _ => "SyntaxError"
  | .outOfBounds _ _ => "OutOfBoundsError"
  | .overflow _ => "OverflowError"
  | .subZero => "SubZeroError"
  | .wrongLength _ | .outOfRange _ | .exceedsLimit _ _ | .unprintable _ => "InputError"
  | .inputFailure _ => "IOError"

def detail : Cause → String
  | .unendedComment => "cannot import code with unended comments."
  | .unterminatedLoops => "cannot import code with unterminated while loops."
  | .unexpectedTerminator => "found while loop terminator ']' without a matching '['."
  | .missingTerminator _ => "expected while loop terminator ']' but terminator was not found."
  | .invalidCharacter c => s!"char '{c}' could not be interpreted."
  | .outOfBounds _ side => "cannot move pointer out of " ++ side.name ++ " bounds."
  | .overflow limit => s!"cannot increment memory block past integer limit of {limit}."
  | .subZero => "cannot decrement memory block past 0."
  | .wrongLength received =>
    "received input \"" ++ String.ofList received ++ "\" - char was not 1 in length."
  | .outOfRange c => s!"cannot input char '{c}' with value that exceeds ASCII range of 255."
  | .exceedsLimit c limit =>
    s!"cannot input char '{c}' with value that exceeds integer limit of {limit}."
  | .unprintable value =>
    s!"cannot output char with value {value} that exceeds printable ASCII range of 32 to 255."
  | .inputFailure text => text

end Cause

namespace Fault

def position? : Fault → Option Nat
  | .located position _ => some position
  | .stepLimitExceeded _ | .cancelled => none

def family : Fault → String
  | .located _ cause => cause.family
  | .stepLimitExceeded _ | .cancelled => "Aborted"

def detail : Fault → String
  | .located _ cause => cause.detail
  | .stepLimitExceeded limit => s!"Execution aborted: step limit exceeded ({limit})"
  | .cancelled => "Execution aborted: cancelled"

def headline : Fault → String
  | .located position cause =>
    cause.family ++ ": at position " ++ toString position ++ " - " ++ cause.detail
  | fault => fault.detail

/-- The fault in one sentence; only a failure of the input is worded otherwise than in
`headline`. -/
def message : Fault → String
  | .located position (.inputFailure text) =>
    "I/O error at position " ++ toString position ++ ": " ++ text
  | fault => fault.headline

end Fault

end TapeMachine
