import TapeMachine.Palette
import TapeMachine.Tape
import TapeMachine.Text.Line

/-
The settings file: sections of `key = value` lines. A later assignment of a key replaces an earlier
one, and a value that cannot be read leaves the default in place.
-/
namespace TapeMachine

inductive SettingsLine
  | nothing
  | heading (name : List Char)
  | assignment (key value : List Char)
  deriving DecidableEq, Repr

namespace SettingsLine

def unquote (value : List Char) : List Char :=
  if value.head? = some '"' ∧ value.getLast? = some '"' ∧ 2 ≤ value.length then
    value.tail.dropLast
  else value

def ofText (text : List Char) : SettingsLine :=
  let line := Text.trim text
  if line.isEmpty ∨ line.head? = some '#' then .nothing
  else if line.head? = some '[' ∧ line.getLast? = some ']' then
    .heading (Text.trim line.tail.dropLast)
  else
    match line.dropWhile (· ≠ '=') with
    | [] => .nothing
    | _ :: value => .assignment (Text.trim (line.takeWhile (· ≠ '='))) (unquote (Text.trim value))

end SettingsLine

structure Assignment where
  heading : List Char
  key : List Char
  value : List Char
  deriving DecidableEq, Repr

def Assignment.assigns (a : Assignment) (heading key : String) : Bool :=
  a.heading = heading.toList && a.key = key.toList

structure SettingsTable where
  heading : List Char := []
  assignments : List Assignment := []
  deriving DecidableEq, Repr

namespace SettingsTable

def addLine (table : SettingsTable) (text : List Char) : SettingsTable :=
  match SettingsLine.ofText text with
  | .nothing => table
  | .heading name => { table with heading := name }
  | .assignment key value =>
    let others := table.assignments.filter fun a => !(a.heading = table.heading && a.key = key)
    { table with assignments := ⟨table.heading, key, value⟩ :: others }

def ofText (content : List Char) : SettingsTable := (Text.lines content).foldl addLine {}

def value? (table : SettingsTable) (heading key : String) : Option (List Char) :=
  (table.assignments.find? (·.assigns heading key)).map (·.value)

end SettingsTable

def trueWords : List String := ["true", "1", "yes", "on"]

def falseWords : List String := ["false", "0", "no", "off"]

def boolean? (text : List Char) : Option Bool :=
  let word := String.ofList (Text.lower (Text.trim text))
  if word ∈ trueWords then some true
  else if word ∈ falseWords then some false
  else none

def groupedDecimal? (bound : Nat) (text : List Char) : Option Nat :=
  Text.decimal? bound (text.filter (· ≠ '_'))

structure Settings where
  tape : TapeConfig := {}
  rails : Bool := false
  palette : Palette := .default
  deriving DecidableEq, Repr

namespace Settings

inductive Error
  /-- The colour of this role is written so that a pair of digits ends inside a character. -/
  | splitCharacter (role : Role)
  deriving DecidableEq, Repr

def usable (config : TapeConfig) : TapeConfig := if config.error?.isSome then {} else config

def tapeOf (table : SettingsTable) : TapeConfig :=
  let standard : TapeConfig := {}
  usable
    { capacity :=
        ((table.value? "interpreter" "memory_capacity").bind
          (groupedDecimal? Text.maxWord64)).getD standard.capacity
      limit :=
        ((table.value? "interpreter" "integer_limit").bind
          (groupedDecimal? Text.maxWord32)).getD standard.limit }

def railsOf (table : SettingsTable) : Bool :=
  ((table.value? "interpreter" "guard_rails").bind boolean?).getD false

def colourReading (table : SettingsTable) (role : Role) : ColourReading :=
  match table.value? "colors" role.key with
  | some value => .ofText value
  | none => .unknown

def paletteOf (table : SettingsTable) : Palette :=
  .ofRoles fun role => (colourReading table role).getD role.defaultColour

def ofTable (table : SettingsTable) : Except Error Settings :=
  match Role.all.find? fun role => colourReading table role = .splitCharacter with
  | some role => .error (.splitCharacter role)
  | none => .ok { tape := tapeOf table, rails := railsOf table, palette := paletteOf table }

def ofText (content : List Char) : Except Error Settings := ofTable (.ofText content)

theorem usable_valid (config : TapeConfig) : (usable config).Valid := by
  unfold usable
  split
  · exact ⟨by decide, by decide⟩
  · rename_i h
    exact TapeConfig.error?_eq_none_iff.mp (by simpa using h)

end Settings

end TapeMachine
