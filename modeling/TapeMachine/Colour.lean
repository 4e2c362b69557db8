import TapeMachine.Text.Blank
import TapeMachine.Text.Encoding
import TapeMachine.Text.Numeral

/-
Terminal colours: how text is painted with them and how they are written in a settings file.
-/
namespace TapeMachine

inductive Colour
  | black
  | red
  | green
  | yellow
  | blue
  | purple
  | cyan
  | white
  | darkGray
  | lightRed
  | lightGreen
  | lightBlue
  | lightCyan
  | lightGray
  | rgb (red green blue : Nat)
  deriving DecidableEq, Repr

namespace Colour

def code : Colour → String
  | .black => "30"
  | .red => "31"
  | .green => "32"
  | .yellow => "33"
  | .blue => "34"
  | .purple => "35"
  | .cyan => "36"
  | .white => "37"
  | .darkGray => "90"
  | .lightRed => "91"
  | .lightGreen => "92"
  | .lightBlue => "94"
  | .lightCyan => "96"
  | .lightGray => "97"
  | .rgb r g b => s!"38;2;{r};{g};{b}"

def paint (colour : Colour) (text : String) : String :=
  "\x1b[" ++ colour.code ++ "m" ++ text ++ "\x1b[0m"

def names : List (String × Colour) :=
  [("black", .black), ("red", .red), ("green", .green), ("yellow", .yellow), ("blue", .blue),
   ("purple", .purple), ("magenta", .purple), ("cyan", .cyan), ("white", .white),
   ("darkgray", .darkGray), ("dark_gray", .darkGray), ("darkgrey", .darkGray),
   ("dark_grey", .darkGray), ("lightred", .lightRed), ("light_red", .lightRed),
   ("lightgreen", .lightGreen), ("light_green", .lightGreen), ("lightblue", .lightBlue),
   ("light_blue", .lightBlue), ("lightcyan", .lightCyan), ("light_cyan", .lightCyan),
   ("lightgray", .lightGray), ("light_gray", .lightGray), ("gray", .lightGray),
   ("grey", .lightGray)]

def named? (name : List Char) : Option Colour := names.lookup (String.ofList (Text.lower name))

end Colour

inductive ColourReading
  | colour (value : Colour)
  | unknown
  /-- Six bytes follow the number sign, but one of the three pairs ends inside a character. -/
  | splitCharacter
  deriving DecidableEq, Repr

namespace ColourReading

/-- The text in pieces of two bytes, if none of them ends inside a character. -/
def bytePairs? : List Char → Option (List (List Char))
  | [] => some []
  | [a] => if a.utf8Size = 2 then some [[a]] else none
  | a :: b :: rest =>
    if a.utf8Size = 2 then (bytePairs? (b :: rest)).map ([a] :: ·)
    else if a.utf8Size = 1 ∧ b.utf8Size = 1 then (bytePairs? rest).map ([a, b] :: ·)
    else none

def channel? (s : List Char) : Option Nat := Text.numeral? 16 255 s

def ofChannels : List (List Char) → ColourReading
  | [red, green, blue] =>
    match channel? red, channel? green, channel? blue with
    | some r, some g, some b => .colour (.rgb r g b)
    | _, _, _ => .unknown
  | _ => .unknown

def ofHex (digits : List Char) : ColourReading :=
  if Text.byteLength digits = 6 then
    match bytePairs? digits with
    | some pairs => ofChannels pairs
    | none => .splitCharacter
  else .unknown

def ofName (name : List Char) : ColourReading :=
  match Colour.named? name with
  | some value => .colour value
  | none => .unknown

def ofText (value : List Char) : ColourReading :=
  match Text.trim value with
  | '#' :: digits => ofHex digits
  | name => ofName name

def getD (reading : ColourReading) (default : Colour) : Colour :=
  match reading with
  | .colour value => value
  | .unknown | .splitCharacter => default

end ColourReading

end TapeMachine
