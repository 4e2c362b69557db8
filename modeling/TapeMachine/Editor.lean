import TapeMachine.Session

/-
A session held in a line editor: at each prompt earlier submissions can be called back and text
typed after them, and the buffer is then submitted.
-/
namespace TapeMachine.Editor

/-- The submissions kept, the latest first. -/
structure History where
  items : List (List Char) := []
  deriving DecidableEq, Repr

namespace History

def add (history : History) (buffer : List Char) : History :=
  if buffer.isEmpty ∨ history.items.head? = some buffer then history
  else { items := buffer :: history.items }

/-- What an empty buffer becomes by going back a number of submissions, at most to the oldest. -/
def earlier (history : History) (presses : Nat) : List Char :=
  if presses = 0 then [] else (history.items.take presses).getLastD []

end History

structure Prompt where
  /-- How many submissions to go back. -/
  presses : Nat := 0
  typed : List Char
  input : List UInt8 := []
  deriving DecidableEq, Repr

def Prompt.buffer (prompt : Prompt) (history : History) : List Char :=
  history.earlier prompt.presses ++ prompt.typed

/-- What ends a session that was not ended by a submission. -/
inductive Ending
  /-- The interrupt key at the prompt: the line is left with a line feed. -/
  | key
  /-- An interrupt signal, which leaves at once. -/
  | signal
  deriving DecidableEq, Repr

def Ending.printed : Ending → String
  | .key => "\n"
  | .signal => ""

structure Transcript where
  replies : List Printed := []
  last? : Option String
  deriving DecidableEq, Repr

/-- Holds a session. With `once` it ends after the first submission, whatever that was. -/
def hold (palette : Palette) (fuel : Nat) (once : Bool) (ending : Ending) (history : History)
    (session : Session) : List Prompt → Option Transcript
  | [] => some { last? := some ending.printed }
  | prompt :: rest =>
    let buffer := prompt.buffer history
    match { session with input := .stream prompt.input }.submit palette fuel buffer with
    | none => none
    | some reply =>
      if reply.flow = .exit ∨ once then some { replies := [reply.printed], last? := none }
      else
        (hold palette fuel once ending (history.add buffer) reply.session rest).map fun later =>
          { later with replies := reply.printed :: later.replies }

def banner (terminal : Bool) : String :=
  if terminal then
    "Brainfuck REPL (interactive editor mode)\n" ++
    "The tape persists between runs; :reset clears it, :help lists meta commands.\n" ++
    "Ctrl+d/Ctrl+z Enter (Windows) executes the current buffer. Press ctrl+c to exit\n"
  else ""

def isOnce (value? : Option (List Char)) : Bool := value? = some ['1']

end TapeMachine.Editor
