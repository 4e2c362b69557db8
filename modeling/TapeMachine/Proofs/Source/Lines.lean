import TapeMachine.Proofs.Source.Pieces
import TapeMachine.Proofs.Text.Line

/-
Programs and their lines. Line comments and white space go line by line, so a program keeps its
stripped code, and with it its verdict and its runs, when its lines are read and written again with
a plain line feed after each of them.
-/
namespace TapeMachine.Source

open Text

variable {line : List Char} {ls : List (List Char)} {c : Char}

def bare (source : List Char) : List Char := dropSpaces (dropLineComments false source)

end TapeMachine.Source
