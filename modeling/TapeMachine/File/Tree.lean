import TapeMachine.File.Path
import TapeMachine.Text.Encoding

/-
A directory with the files and directories below it, and what reading a path in it gives. Some paths
cannot be read whatever the directory holds: a file name has no NUL character, and names and whole
paths are at most so many bytes long.
-/
namespace TapeMachine

inductive ReadError
  | missing
  | notDirectory
  | isDirectory
  | nulCharacter
  | nameTooLong
  deriving DecidableEq, Repr

def ReadError.description : ReadError → String
  | .missing => "No such file or directory (os error 2)"
  | .notDirectory => "Not a directory (os error 20)"
  | .isDirectory => "Is a directory (os error 21)"
  | .nulCharacter => "file name contained an unexpected NUL byte"
  | .nameTooLong => "File name too long (os error 36)"

def ReadError.ofPath? (path : List Char) : Option ReadError :=
  if path.contains Path.nul then some .nulCharacter
  else if Path.maxBytes < Text.byteLength path then some .nameTooLong
  else none

abbrev Location := List (List Char)

inductive Node
  | file (bytes : List UInt8)
  | directory
  deriving DecidableEq, Repr

structure FileEntry where
  location : Location
  node : Node
  deriving DecidableEq, Repr

/-- Of two entries for one location the later one counts, and whatever is above an entry is a
directory. -/
structure FileTree where
  entries : List FileEntry := []
  deriving DecidableEq, Repr

namespace FileTree

def locationOf (name : List Char) : Location :=
  (Path.pieces name).filter (!Path.staysPut ·)

def ofNames (items : List (List Char × Node)) : FileTree :=
  { entries := items.map fun (name, node) => ⟨locationOf name, node⟩ }

def isAbove (location : Location) (entry : FileEntry) : Bool :=
  location.isPrefixOf entry.location && location ≠ entry.location

def node? (tree : FileTree) (location : Location) : Option Node :=
  if location = [] then some .directory
  else
    match tree.entries.reverse.find? (·.location = location) with
    | some entry => some entry.node
    | none => if tree.entries.any (isAbove location) then some .directory else none

def locate (tree : FileTree) (here : Location) : List (List Char) → Except ReadError Location
  | [] => .ok here
  | piece :: rest =>
    match tree.node? here with
    | none => .error .missing
    | some (.file _) => .error .notDirectory
    | some .directory =>
      if Path.staysPut piece then tree.locate here rest
      else if Path.leaves piece then
        if here.isEmpty then .error .missing else tree.locate here.dropLast rest
      else if Path.maxPieceBytes < Text.byteLength piece then .error .nameTooLong
      else tree.locate (here ++ [piece]) rest

def read (tree : FileTree) (path : List Char) : Except ReadError (List UInt8) :=
  match ReadError.ofPath? path with
  | some e => .error e
  | none =>
    if Path.isAbsolute path then .error .missing
    else
      match tree.locate [] (Path.pieces path) with
      | .error e => .error e
      | .ok location =>
        match tree.node? location with
        | none => .error .missing
        | some .directory => .error .isDirectory
        | some (.file bytes) => .ok bytes

end FileTree

end TapeMachine
