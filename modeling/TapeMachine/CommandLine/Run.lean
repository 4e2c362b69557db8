import TapeMachine.CommandLine.Arguments
import TapeMachine.CommandLine.Surroundings
import TapeMachine.CommandLine.Usage
import TapeMachine.Dump

/-
The task `run`: one program from the arguments or from a file. Wall-clock time is measured in turns,
by the pace the surroundings give. A program that is cut short leaves what it has printed.
-/
namespace TapeMachine.CommandLine.Run

structure Timeout where
  milliseconds : Nat
  /-- The turns that fit into the time. -/
  turns : Nat
  deriving DecidableEq, Repr

def Timeout.of (world : Surroundings) (milliseconds : Nat) : Timeout :=
  { milliseconds, turns := world.turnsWithin milliseconds }

structure Plan where
  tape : TapeConfig
  rails : Bool
  timeout? : Option Timeout
  maxSteps? : Option Nat
  dump? : Option Nat
  palette : Palette
  deriving DecidableEq, Repr

def Plan.of (world : Surroundings) (settings : Settings) (options : RunOptions) : Plan :=
  { tape :=
      { capacity := options.capacity?.getD settings.tape.capacity
        limit := options.limit?.getD settings.tape.limit }
    rails := world.rails settings options.rails
    timeout? := (options.timeout?.or (world.number? "BF_TIMEOUT_MS")).map (Timeout.of world)
    maxSteps? := options.maxSteps?.or (world.number? "BF_MAX_STEPS")
    dump? := options.dump?
    palette := settings.palette }

def Plan.mode (plan : Plan) (fuel : Nat) : RunMode :=
  { fuel :=
      match plan.timeout? with
      | some timeout => min fuel timeout.turns
      | none => fuel
    rails := plan.rails
    control := { maxSteps? := plan.maxSteps? } }

/-- No newline ends the output, and there is no dump. -/
def timedOut (timeout : Timeout) (output : Array Char) : Exit :=
  { code := 1
    printed :=
      { out := String.ofList output.toList
        err := "Execution aborted: wall-clock timeout exceeded (" ++
          toString timeout.milliseconds ++ " ms)\n" } }

def dumpAfter (plan : Plan) (tape : Tape) : Printed :=
  match plan.dump? with
  | some width => { out := tape.dump plan.palette width 0 ++ "\n" }
  | none => {}

def finished (program : String) (plan : Plan) (source : List Char) (o : Outcome) : Exit :=
  { code := match o.result with
      | .ok _ => 0
      | .error _ => 1
    printed := Report.outcome plan.palette (some program) source o ++ dumpAfter plan o.tape }

def runSource (program : String) (fuel : Nat) (world : Surroundings) (plan : Plan) (tape : Tape)
    (source : List Char) : Except Breakdown Exit :=
  let input : Input := .stream world.stdin
  match execute (plan.mode fuel) source tape input, plan.timeout? with
  | some o, _ => .ok (finished program plan source o)
  | none, some timeout =>
    .ok (timedOut timeout (executePrinting (plan.mode fuel) source tape input))
  | none, none => .error .unfinished

def source (world : Surroundings) (options : RunOptions) : Except LoadError (List Char) :=
  match options.file? with
  | some path => loadProgram world.read path
  | none => .ok options.code.flatten

def carryOut (program : String) (fuel : Nat) (world : Surroundings) (settings : Settings)
    (options : RunOptions) : Except Breakdown Exit :=
  let plan := Plan.of world settings options
  match Tape.ofConfig plan.tape with
  | .error e => .ok { code := 2, printed := { err := program ++ ": " ++ e.message ++ "\n" } }
  | .ok tape =>
    match source world options with
    | .error e =>
      .ok { code := 1, printed := { err := e.report plan.palette (some program) none } }
    | .ok source => runSource program fuel world plan tape source

def usage (program : String) (code : Nat) : Exit :=
  { code, printed := { err := Usage.run program } }

def conflict (program : String) : Printed :=
  { err := program ++ ": cannot use positional code together with --file\n" }

def answer (program : String) (fuel : Nat) (world : Surroundings) (options : RunOptions) :
    Except Breakdown Exit :=
  if options.help then .ok (usage program 0)
  else if options.file?.isNone ∧ options.code.isEmpty then .ok (usage program 2)
  else if options.file?.isSome ∧ !options.code.isEmpty then
    .ok { code := 2, printed := conflict program ++ (usage program 2).printed }
  else
    match world.settings with
    | .error e => .error (.settings e)
    | .ok settings => carryOut program fuel world settings options

end TapeMachine.CommandLine.Run
