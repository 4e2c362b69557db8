import TapeMachine.Palette
import TapeMachine.Tape

/-
The memory dump: a window of cells in brackets, and above it a marker over the cell the pointer is
on, or a note that the pointer is elsewhere.
-/
namespace TapeMachine

namespace Dump

/-- The cells from `start` up to but not including `stop`. -/
structure Bounds where
  start : Nat
  stop : Nat
  deriving DecidableEq, Repr

def bounds (capacity width offset : Nat) : Bounds :=
  let start := min offset capacity
  { start, stop := min (start + width) capacity }

def cellText (value : Nat) : String := "[" ++ toString value ++ "]"

def paintedCell (palette : Palette) (value : Nat) : String :=
  (if value = 0 then palette.cellEmpty else palette.cellNonzero).paint (cellText value)

def slice (tape : Tape) (b : Bounds) : List Nat := (tape.cells.extract b.start b.stop).toList

/-- The column of the first digit of the pointer's cell, counted from zero. -/
def markerColumn (tape : Tape) (b : Bounds) : Nat :=
  ((slice tape { b with stop := tape.pointer }).flatMap (cellText · |>.toList)).length + 1

def marker (palette : Palette) (tape : Tape) (b : Bounds) : String :=
  let position := toString (tape.pointer + 1)
  if b.start ≤ tape.pointer ∧ tape.pointer < b.stop then
    String.ofList (List.replicate (markerColumn tape b) ' ') ++ palette.pointer.paint "v" ++
      " (" ++ position ++ ")"
  else
    "pointer at " ++ position ++ " (outside cells " ++ toString (b.start + 1) ++ "..=" ++
      toString b.stop ++ ")"

end Dump

def Tape.dump (palette : Palette) (tape : Tape) (width offset : Nat) : String :=
  let b := Dump.bounds tape.capacity width offset
  Dump.marker palette tape b ++ "\n" ++
    String.join ((Dump.slice tape b).map (Dump.paintedCell palette))

end TapeMachine
