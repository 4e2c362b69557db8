import TapeMachine.CommandLine.Arguments
import TapeMachine.CommandLine.Surroundings
import TapeMachine.CommandLine.Usage
import TapeMachine.Session

/-
The task `repl`: a session, either a script from standard input or held in a line editor.
-/
namespace TapeMachine.CommandLine

inductive ReplMode
  | bare
  | editor
  deriving DecidableEq, Repr

inductive ReplModeError
  /-- The editor was asked for by a flag, or else by the variable. -/
  | notTerminal (byFlag : Bool)
  | invalid (value : List Char)
  deriving DecidableEq, Repr

def ReplModeError.message : ReplModeError → String
  | .notTerminal true =>
    "cannot start editor: stdin is not a TTY (use --bare or BF_REPL_MODE=bare)"
  | .notTerminal false => "cannot start editor: stdin is not a TTY (use BF_REPL_MODE=bare)"
  | .invalid value =>
    "invalid BF_REPL_MODE value: " ++ String.ofList value ++ ", must be 'bare' or 'editor'"

namespace ReplMode

def editorOn (terminal byFlag : Bool) : Except ReplModeError ReplMode :=
  if terminal then .ok .editor else .error (.notTerminal byFlag)

def ofVariable (terminal : Bool) (value : List Char) : Except ReplModeError ReplMode :=
  let word := Text.lower (Text.trim value)
  if word = "bare".toList then .ok .bare
  else if word = "editor".toList then editorOn terminal false
  else .error (.invalid value)

def select (flag? : Option ReplMode) (value? : Option (List Char)) (terminal : Bool) :
    Except ReplModeError ReplMode :=
  match flag?, value? with
  | some .bare, _ => .ok .bare
  | some .editor, _ => editorOn terminal true
  | none, some value => ofVariable terminal value
  | none, none => .ok (if terminal then .editor else .bare)

end ReplMode

namespace Repl

def modeFlag? (options : ReplOptions) : Option ReplMode :=
  if options.bare then some .bare
  else if options.editor then some .editor
  else none

def selectMode (world : Surroundings) (options : ReplOptions) : Except ReplModeError ReplMode :=
  ReplMode.select (modeFlag? options) (world.lookup? "BF_REPL_MODE") world.terminal

inductive Start
  | exit (exit : Exit)
  | session (mode : ReplMode) (palette : Palette) (session : Session)

def sessionOf (world : Surroundings) (settings : Settings) (options : ReplOptions) : Session :=
  { tape := .blank settings.tape
    rails := world.rails settings options.rails
    input := .stream world.stdin }

def start (program : String) (world : Surroundings) (options : ReplOptions) :
    Except Breakdown Start :=
  if options.help then .ok (.exit { code := 0, printed := { err := Usage.repl program } })
  else
    match selectMode world options with
    | .error e =>
      .ok (.exit { code := 1, printed := { err := program ++ ": " ++ e.message ++ "\n" } })
    | .ok mode =>
      match world.settings with
      | .error e => .error (.settings e)
      | .ok settings => .ok (.session mode settings.palette (sessionOf world settings options))

def runBare (palette : Palette) (fuel : Nat) (world : Surroundings) (session : Session) :
    Except Breakdown Exit :=
  match session.runPiped palette fuel world.stdin with
  | some reply => .ok { code := 0, printed := reply.printed }
  | none => .error .unfinished

end Repl

end TapeMachine.CommandLine
