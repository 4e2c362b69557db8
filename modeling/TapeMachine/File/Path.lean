/-
Paths: names between slashes. An empty name and a single dot stay in a directory, and two dots leave
it.
-/
namespace TapeMachine.Path

def pieces : List Char → List (List Char)
  | [] => [[]]
  | c :: cs => if c = '/' then [] :: pieces cs else (pieces cs).modifyHead (c :: ·)

def staysPut (piece : List Char) : Bool := piece = [] || piece = ['.']

def leaves (piece : List Char) : Bool := piece = ['.', '.']

def isAbsolute (path : List Char) : Bool := path.head? = some '/'

def nul : Char := '\x00'

def maxPieceBytes : Nat := 255

def maxBytes : Nat := 4095

/-- The last name of a path, past any pieces that stay in it. -/
def fileName? (path : List Char) : Option (List Char) :=
  match (pieces path).reverse.dropWhile staysPut with
  | [] => none
  | piece :: _ => if leaves piece then none else some piece

/-- What follows the last dot of a name, unless the name starts with that dot. -/
def extensionOfName? (name : List Char) : Option (List Char) :=
  match name.reverse.dropWhile (· ≠ '.') with
  | [] => none
  | [_] => none
  | _ :: _ :: _ => some (name.reverse.takeWhile (· ≠ '.')).reverse

def extension? (path : List Char) : Option (List Char) := (fileName? path).bind extensionOfName?

example : extension? "a/b.bf/.".toList = some "bf".toList := by decide
example : extension? ".bf".toList = none := by decide
example : extension? "..bf".toList = some "bf".toList := by decide

end TapeMachine.Path
