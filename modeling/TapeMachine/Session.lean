import TapeMachine.Command
import TapeMachine.Dump
import TapeMachine.Report
import TapeMachine.Script

/-
A session: one tape that every submission works on. A submission is a command or a program; neither
a fault nor a malformed command ends the session.
-/
namespace TapeMachine

structure Session where
  tape : Tape
  rails : Bool
  input : Input

inductive Flow
  | goOn
  | exit
  deriving DecidableEq, Repr

structure Reply where
  session : Session
  printed : Printed := {}
  flow : Flow := .goOn

namespace Session

def obey (palette : Palette) (s : Session) : Command → Reply
  | .exit => { session := s, flow := .exit }
  | .help => { session := s, printed := { err := Command.helpText } }
  | .reset => { session := { s with tape := s.tape.reset }, printed := { err := "tape cleared\n" } }
  | .rails =>
    { session := { s with rails := !s.rails }
      printed := { err := if s.rails then "guard rails off\n" else "guard rails on\n" } }
  | .dump width offset =>
    { session := s, printed := { out := s.tape.dump palette width offset ++ "\n" } }

def runProgram (palette : Palette) (fuel : Nat) (s : Session) (source : List Char) :
    Option Reply :=
  (execute { fuel, rails := s.rails } source s.tape s.input).map fun o =>
    { session := { s with tape := o.tape, input := o.input }
      printed := Report.outcome palette none source o }

def submit (palette : Palette) (fuel : Nat) (s : Session) (submission : List Char) :
    Option Reply :=
  if submission.all Text.isBlank then some { session := s }
  else
    match Command.ofText? submission with
    | some (.ok command) => some (s.obey palette command)
    | some (.error e) =>
      some { session := s, printed := { err := "repl: " ++ e.message ++ "\n" } }
    | none => s.runProgram palette fuel submission

def submitAll (palette : Palette) (fuel : Nat) (s : Session) : List (List Char) → Option Reply
  | [] => some { session := s }
  | chunk :: rest =>
    match s.submit palette fuel chunk with
    | none => none
    | some reply =>
      match reply.flow with
      | .exit => some reply
      | .goOn =>
        (submitAll palette fuel reply.session rest).map fun last =>
          { last with printed := reply.printed ++ last.printed }

/-- Runs a script that is all of standard input, so that its programs find no input left. -/
def runPiped (palette : Palette) (fuel : Nat) (s : Session) (bytes : List UInt8) : Option Reply :=
  let s := { s with input := .stream [] }
  match Script.ofBytes? bytes with
  | none => some { session := s }
  | some script => s.submitAll palette fuel (Script.chunks script)

end Session

end TapeMachine
