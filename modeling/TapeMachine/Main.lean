import TapeMachine.CommandLine
import TapeMachine.Editor

/-
The program `bf`. This module only collects the surroundings, asks for the answer and writes it. On
a terminal a submission is typed up to an end of file, and so is the input of a program that reads.
-/
namespace TapeMachine.Shell

open CommandLine

def program : String := "bf"

/-- Turns granted to a program that sets no limit of its own. -/
def fuel : Nat := 1_000_000_000_000_000_000

def variableNames : List String :=
  ["BF_GUARD_RAILS", "BF_TIMEOUT_MS", "BF_MAX_STEPS", "BF_REPL_MODE", "BF_REPL_ONCE"]

def environment : IO (List (String × String)) :=
  variableNames.filterMapM fun name => do
    return (← IO.getEnv name).map (name, ·)

/-- The number of a system error, which may come negated. -/
def errorNumber (code : UInt32) : UInt32 := min code (0 - code)

def readError : IO.Error → ReadError
  | .inappropriateType _ code _ =>
    if errorNumber code = 20 then .notDirectory else .isDirectory
  | .invalidArgument _ code _ => if errorNumber code = 36 then .nameTooLong else .missing
  | _ => .missing

def readFile (path : String) : IO (Except ReadError (List UInt8)) := do
  if let some e := ReadError.ofPath? path.toList then
    return .error e
  try
    return .ok (← IO.FS.readBinFile path).toList
  catch e =>
    return .error (readError e)

def settingsDirectory? : IO (Option String) := do
  match ← IO.getEnv "XDG_CONFIG_HOME", ← IO.getEnv "HOME" with
  | some directory, _ => return some directory
  | none, some home => return some (home ++ "/.config")
  | none, none => return none

def settingsFile? : IO (Option (List UInt8)) := do
  match ← settingsDirectory? with
  | none => return none
  | some directory => return (← readFile (directory ++ "/railbf.toml")).toOption

def refusal (_ : List String) : String :=
  "error: the arguments are not understood\n\nFor more information, try '--help'.\n"

def reader (arguments : List String) : IO Reader := do
  match (Arguments.ofStrings? arguments).map Arguments.task with
  | some (Task.run { file? := some path, .. }) =>
    let content ← readFile (String.ofList path)
    return fun asked => if asked = path then content else .error .missing
  | _ => return fun _ => .error .missing

def surroundings (arguments : List String) : IO Surroundings := do
  let stdin ← IO.getStdin
  let world : Surroundings :=
    { environment := ← environment, settingsFile? := ← settingsFile?, read := ← reader arguments
      terminal := ← stdin.isTty, refusal }
  match (Arguments.ofStrings? arguments).map (·.task.readsInput world) with
  | some true => return { world with stdin := (← stdin.readBinToEnd).toList }
  | _ => return world

def write (printed : Printed) : IO Unit := do
  let stdout ← IO.getStdout
  let stderr ← IO.getStderr
  stdout.putStr printed.out
  stdout.flush
  stderr.putStr printed.err
  stderr.flush

partial def converse (palette : Palette) (once : Bool) (session : Session) : IO Unit := do
  let stdin ← IO.getStdin
  let typed ← stdin.readToEnd
  if typed.isEmpty then write { out := Editor.Ending.key.printed }
  else
    let submission := typed.toList
    let input ← if submission.contains ',' then stdin.readBinToEnd else pure ByteArray.empty
    let session := { session with input := .stream input.toList }
    match session.submit palette fuel submission with
    | none => return
    | some reply =>
      write reply.printed
      unless reply.flow = .exit || once do
        converse palette once reply.session

def settingsBreakdown : String := "a colour of the settings file cannot be read\n"

end TapeMachine.Shell

open TapeMachine TapeMachine.CommandLine in
def main (arguments : List String) : IO UInt32 := do
  let world ← Shell.surroundings arguments
  match answer Shell.program Shell.fuel world arguments with
  | .ok (.exit exit) =>
    Shell.write exit.printed
    return exit.code.toUInt32
  | .ok (.edit palette session) =>
    Shell.write { err := Editor.banner (← (← IO.getStderr).isTty) }
    Shell.converse palette (Editor.isOnce (world.lookup? "BF_REPL_ONCE")) session
    return 0
  | .error (.settings _) =>
    Shell.write { err := Shell.settingsBreakdown }
    return 101
  | .error .unfinished => return 1
