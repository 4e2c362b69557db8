import TapeMachine.CommandLine.Repl
import TapeMachine.CommandLine.Run

/-
The command line as a whole: from the arguments and the surroundings to an exit, or to a session
that is to be held in a line editor.
-/
namespace TapeMachine.CommandLine

inductive Answer
  | exit (exit : Exit)
  | edit (palette : Palette) (session : Session)

def rejection (world : Surroundings) (arguments : List String) : Exit :=
  { code := 2, printed := { err := world.refusal arguments } }

def Arguments.task (arguments : Arguments) : Task := arguments.task?.getD (.repl {})

def Task.readsInput (world : Surroundings) : Task → Bool
  | .run options => !options.help && (options.file?.isSome || options.code.any (·.contains ','))
  | .repl options =>
    match Repl.selectMode world options with
    | .ok .bare => !options.help
    | _ => false

def answerTask (program : String) (fuel : Nat) (world : Surroundings) :
    Task → Except Breakdown Answer
  | .run options => (Run.answer program fuel world options).map .exit
  | .repl options =>
    match Repl.start program world options with
    | .error e => .error e
    | .ok (.exit exit) => .ok (.exit exit)
    | .ok (.session .editor palette session) => .ok (.edit palette session)
    | .ok (.session .bare palette session) =>
      (Repl.runBare palette fuel world session).map .exit

def answer (program : String) (fuel : Nat) (world : Surroundings) (arguments : List String) :
    Except Breakdown Answer :=
  match Arguments.ofStrings? arguments with
  | none => .ok (.exit (rejection world arguments))
  | some arguments =>
    if arguments.help then .ok (.exit { code := 0, printed := { err := Usage.top program } })
    else answerTask program fuel world arguments.task

end TapeMachine.CommandLine
