import TapeMachine.File.Program
import TapeMachine.Settings

/-
What the command line finds when it starts: the environment, the settings file, files and what is
on standard input. The pace of the machine, on which a limit of time depends, and the words of the
argument parser are found as well, as nothing here decides them; their defaults stand in for them.
-/
namespace TapeMachine.CommandLine

structure Surroundings where
  environment : List (String × String) := []
  settingsFile? : Option (List UInt8) := none
  read : Reader
  stdin : List UInt8 := []
  terminal : Bool := false
  /-- Turns the machine makes in so many milliseconds. -/
  turnsWithin : Nat → Nat := (20000 * ·)
  /-- What the argument parser says of arguments it refuses. -/
  refusal : List String → String := fun _ => "<argument parser error>"

namespace Surroundings

def lookup? (world : Surroundings) (name : String) : Option (List Char) :=
  (world.environment.lookup name).map (·.toList)

def flag? (world : Surroundings) (name : String) : Option Bool :=
  (world.lookup? name).bind boolean?

def number? (world : Surroundings) (name : String) : Option Nat :=
  (world.lookup? name).bind (Text.decimal? Text.maxWord64)

def settings (world : Surroundings) : Except Settings.Error Settings :=
  match world.settingsFile?.bind Text.decode? with
  | some content => Settings.ofText content
  | none => .ok {}

def rails (world : Surroundings) (settings : Settings) (given : Bool) : Bool :=
  given || (world.flag? "BF_GUARD_RAILS").getD settings.rails

end Surroundings

structure Exit where
  code : Nat
  printed : Printed := {}
  deriving DecidableEq, Repr

inductive Breakdown
  | settings (error : Settings.Error)
  /-- The program was still running when the fuel was used up. -/
  | unfinished
  deriving DecidableEq, Repr

end TapeMachine.CommandLine
