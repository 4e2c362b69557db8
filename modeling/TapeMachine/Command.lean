import TapeMachine.Text.Blank
import TapeMachine.Text.Numeral

/-
The commands of an interactive session: a line that starts with a colon, then a name, then the
numbers it takes. Words past those are ignored.
-/
namespace TapeMachine

inductive Command
  | exit
  | help
  | reset
  | dump (width offset : Nat)
  | rails
  deriving DecidableEq, Repr

inductive DumpNumber
  | width
  | offset
  deriving DecidableEq, Repr

def DumpNumber.name : DumpNumber → String
  | .width => "width"
  | .offset => "offset"

def DumpNumber.standard : DumpNumber → Nat
  | .width => 10
  | .offset => 0

inductive CommandError
  | notNumber (number : DumpNumber) (word : List Char)
  | unknown (name : List Char)
  deriving DecidableEq, Repr

def CommandError.message : CommandError → String
  | .notNumber number word =>
    ":dump " ++ number.name ++ " must be a number, got '" ++ String.ofList word ++ "'"
  | .unknown name => "unknown meta command ':" ++ String.ofList name ++ "' (try :help)"

namespace Command

def dumpNumber (number : DumpNumber) : Option (List Char) → Except CommandError Nat
  | none => .ok number.standard
  | some word =>
    match Text.decimal? Text.maxWord64 word with
    | some value => .ok value
    | none => .error (.notNumber number word)

def ofDumpWords (words : List (List Char)) : Except CommandError Command :=
  match dumpNumber .width words[0]? with
  | .error e => .error e
  | .ok width => (dumpNumber .offset words[1]?).map (.dump width)

def ofWords (words : List (List Char)) : Except CommandError Command :=
  let name := words.headD []
  if name = "exit".toList ∨ name = "quit".toList then .ok .exit
  else if name = "help".toList then .ok .help
  else if name = "reset".toList then .ok .reset
  else if name = "rails".toList then .ok .rails
  else if name = "dump".toList then ofDumpWords words.tail
  else .error (.unknown name)

/-- Nothing if the line is not a command. -/
def ofText? (line : List Char) : Option (Except CommandError Command) :=
  match Text.trim line with
  | ':' :: rest => some (ofWords (Text.words rest))
  | _ => none

def helpText : String :=
  "Meta commands (line starts with \":\")\n" ++
  "  :exit                   Exit immediately (code 0)\n" ++
  "  :help                   Show this help\n" ++
  "  :reset                  Zero the tape and move the pointer to cell 1\n" ++
  "  :dump [WIDTH] [OFFSET]  Show WIDTH cells starting at OFFSET (default 10, 0)\n" ++
  "  :rails                  Toggle guard rails (clamp/wrap instead of failing)\n"

end Command

end TapeMachine
