import TapeMachine.File.Tree
import TapeMachine.Report

/-
Programs in files. The name is looked at first, then the file is read, and a file without any
instruction is refused.
-/
namespace TapeMachine

inductive LoadError
  | wrongExtension
  | empty
  | unreadable (description : String)
  | rejected (fault : Fault)
  deriving DecidableEq, Repr

namespace LoadError

def message : LoadError → String
  | .wrongExtension =>
    "FilePathError: cannot run code from a file that does not have the extension .bf"
  | .empty => "FilePathError: brainfuck file does not contain any code to execute."
  | .unreadable description => "failed to read code file as UTF-8: " ++ description
  | .rejected fault => fault.message

/-- The report on a program that could not be loaded. The code around a fault is shown only if the
source is at hand. -/
def report (palette : Palette) (program? : Option String) (source? : Option (List Char)) :
    LoadError → String
  | .rejected fault =>
    match source? with
    | some source => Report.fault palette program? source fault
    | none => Report.headline palette program? fault.message
  | error => Report.headline palette program? error.message

end LoadError

abbrev Reader := List Char → Except ReadError (List UInt8)

def programExtension : List Char := "bf".toList

def loadProgram (read : Reader) (path : List Char) : Except LoadError (List Char) :=
  if Path.extension? path ≠ some programExtension then .error .wrongExtension
  else
    match read path with
    | .error e => .error (.unreadable e.description)
    | .ok bytes =>
      match Text.decode? bytes with
      | none => .error (.unreadable Text.invalidEncoding)
      | some source =>
        match Source.sanitize source with
        | .error fault => .error (.rejected fault)
        | .ok [] => .error .empty
        | .ok (_ :: _) => .ok source

def executeFile (mode : RunMode) (read : Reader) (path : List Char) (tape : Tape) (input : Input) :
    Except LoadError (Option Outcome) :=
  (loadProgram read path).map fun source => execute mode source tape input

end TapeMachine
