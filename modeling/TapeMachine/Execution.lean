import TapeMachine.Input
import TapeMachine.Source
import TapeMachine.Tape

/-
Running code on a tape. A turn either carries out the instruction under the cursor or stops; a run
is turns in sequence, as many as its fuel allows. An opening bracket always enters the loop body,
and a closing one goes back to the body of the innermost open loop while the cell is not zero. With
guard rails a run never refuses a move or a change of a cell.
-/
namespace TapeMachine

structure State where
  /-- The position of the next instruction, counted from zero. -/
  cursor : Nat
  /-- The positions of the brackets that opened the current loops, the innermost first. -/
  loops : List Nat
  tape : Tape
  input : Input
  output : Array Char
  /-- Instructions carried out, brackets included. -/
  steps : Nat

structure Halt where
  state : State
  fault? : Option Fault

inductive Turn
  | next (state : State)
  | stop (halt : Halt)

structure Control where
  maxSteps? : Option Nat := none
  cancelled : Bool := false
  /-- Somebody else puts the flag up when the run has carried out this many instructions. -/
  cancelledAt? : Option Nat := none
  deriving DecidableEq, Repr

def Control.isCancelled (control : Control) (steps : Nat) : Bool :=
  control.cancelled || control.cancelledAt?.any (· ≤ steps)

def Control.abort? (control : Control) (steps : Nat) : Option Fault :=
  if control.isCancelled steps then some .cancelled
  else
    match control.maxSteps? with
    | none => none
    | some limit => if limit ≤ steps then some (.stepLimitExceeded limit) else none

def isPrintable (value : Nat) : Bool := 32 ≤ value && value ≤ 255

namespace State

def start (tape : Tape) (input : Input) : State :=
  { cursor := 0, loops := [], tape, input, output := #[], steps := 0 }

def advance (s : State) : State := { s with cursor := s.cursor + 1, steps := s.steps + 1 }

def fault (s : State) (cause : Cause) : Turn :=
  .stop ⟨s, some (.located (s.cursor + 1) cause)⟩

def print (s : State) : Turn :=
  let value := s.tape.cell
  if isPrintable value then .next { s with output := s.output.push (Char.ofNat value) }.advance
  else s.fault (.unprintable value)

/-- Reads one token into the cell. The token is used up even if it is refused. -/
def read (s : State) : Turn :=
  let (token, rest) := s.input.next
  let s := { s with input := rest }
  match token.value s.tape.limit with
  | .error cause => s.fault cause
  | .ok value => .next { s with tape := s.tape.write value }.advance

def enterLoop (s : State) : State := { s with loops := s.cursor :: s.loops }.advance

def endLoop (s : State) : Turn :=
  match s.loops with
  | [] => s.fault .unexpectedTerminator
  | opening :: outer =>
    if s.tape.cell = 0 then .next { s with loops := outer }.advance
    else .next { s with cursor := opening }.advance

def act (rails : Bool) (i : Instruction) (s : State) : Turn :=
  match if rails then none else s.tape.refusal? i with
  | some cause => s.fault cause
  | none => .next { s with tape := s.tape.apply i }.advance

def perform (rails : Bool) (c : Char) (s : State) : Turn :=
  match Instruction.ofChar? c with
  | none => s.fault (.invalidCharacter c)
  | some .print => s.print
  | some .read => s.read
  | some .loopStart => .next s.enterLoop
  | some .loopEnd => s.endLoop
  | some i => s.act rails i

def finish (code : Array Char) (s : State) : Halt :=
  match s.loops with
  | [] => ⟨s, none⟩
  | opening :: _ =>
    ⟨s, some (.located (opening + 1) (.missingTerminator (code.toList.drop opening)))⟩

def turn (code : Array Char) (rails : Bool) (control : Control) (s : State) : Turn :=
  match code[s.cursor]? with
  | none => .stop (s.finish code)
  | some c =>
    match control.abort? s.steps with
    | some fault => .stop ⟨s, some fault⟩
    | none => s.perform rails c

/-- Takes turns until one stops. Nothing if the fuel, one unit a turn, runs out first. -/
def run (code : Array Char) (rails : Bool) (control : Control) : Nat → State → Option Halt
  | 0, _ => none
  | fuel + 1, s =>
    match s.turn code rails control with
    | .next after => run code rails control fuel after
    | .stop halt => some halt

/-- The output by the time the run stops or its fuel is used up. -/
def printed (code : Array Char) (rails : Bool) (control : Control) : Nat → State → Array Char
  | 0, s => s.output
  | fuel + 1, s =>
    match s.turn code rails control with
    | .next after => printed code rails control fuel after
    | .stop halt => halt.state.output

end State

structure Summary where
  outputCount : Nat
  steps : Nat
  deriving DecidableEq, Repr

def Summary.producedOutput (summary : Summary) : Bool := 0 < summary.outputCount

structure Outcome where
  result : Except Fault Summary
  tape : Tape
  input : Input
  output : Array Char

def Halt.outcome (halt : Halt) : Outcome :=
  { result :=
      match halt.fault? with
      | some fault => .error fault
      | none => .ok { outputCount := halt.state.output.size, steps := halt.state.steps }
    tape := halt.state.tape
    input := halt.state.input
    output := halt.state.output }

structure RunMode where
  fuel : Nat
  rails : Bool := false
  control : Control := {}
  deriving DecidableEq, Repr

def execute (mode : RunMode) (source : List Char) (tape : Tape) (input : Input) : Option Outcome :=
  match Source.sanitize source with
  | .error fault => some { result := .error fault, tape, input, output := #[] }
  | .ok code =>
    (State.run code.toArray mode.rails mode.control mode.fuel (.start tape input)).map Halt.outcome

/-- What a program prints within its fuel, at an end or not. -/
def executePrinting (mode : RunMode) (source : List Char) (tape : Tape) (input : Input) :
    Array Char :=
  match Source.sanitize source with
  | .error _ => #[]
  | .ok code => State.printed code.toArray mode.rails mode.control mode.fuel (.start tape input)

end TapeMachine
