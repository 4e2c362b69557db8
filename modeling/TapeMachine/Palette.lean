import TapeMachine.Colour

/-
The colours of diagnostics, of the memory dump and of highlighted code.
-/
namespace TapeMachine

inductive Role
  | error
  | hint
  | snippet
  | info
  | cellEmpty
  | cellNonzero
  | pointer
  | opMove
  | opInc
  | opDec
  | opOutput
  | opInput
  | opBracket
  | comment
  deriving DecidableEq, Repr

namespace Role

def all : List Role :=
  [.error, .hint, .snippet, .info, .cellEmpty, .cellNonzero, .pointer, .opMove, .opInc, .opDec,
   .opOutput, .opInput, .opBracket, .comment]

theorem mem_all (role : Role) : role ∈ all := by
  cases role <;> decide

def key : Role → String
  | .error => "error"
  | .hint => "hint"
  | .snippet => "snippet"
  | .info => "info"
  | .cellEmpty => "cell_empty"
  | .cellNonzero => "cell_nonzero"
  | .pointer => "pointer"
  | .opMove => "op_move"
  | .opInc => "op_inc"
  | .opDec => "op_dec"
  | .opOutput => "op_output"
  | .opInput => "op_input"
  | .opBracket => "op_bracket"
  | .comment => "comment"

def defaultColour : Role → Colour
  | .error | .cellNonzero | .opDec => .rgb 243 139 168
  | .hint | .snippet | .pointer => .rgb 137 220 235
  | .info | .opOutput => .rgb 249 226 175
  | .cellEmpty | .opInc => .rgb 166 227 161
  | .opMove => .rgb 148 226 213
  | .opInput => .rgb 250 179 135
  | .opBracket => .rgb 203 166 247
  | .comment => .rgb 108 112 134

end Role

structure Palette where
  error : Colour
  hint : Colour
  snippet : Colour
  info : Colour
  cellEmpty : Colour
  cellNonzero : Colour
  pointer : Colour
  opMove : Colour
  opInc : Colour
  opDec : Colour
  opOutput : Colour
  opInput : Colour
  opBracket : Colour
  comment : Colour
  deriving DecidableEq, Repr

namespace Palette

def ofRoles (f : Role → Colour) : Palette :=
  { error := f .error, hint := f .hint, snippet := f .snippet, info := f .info
    cellEmpty := f .cellEmpty, cellNonzero := f .cellNonzero, pointer := f .pointer
    opMove := f .opMove, opInc := f .opInc, opDec := f .opDec, opOutput := f .opOutput
    opInput := f .opInput, opBracket := f .opBracket, comment := f .comment }

def get (palette : Palette) : Role → Colour
  | .error => palette.error
  | .hint => palette.hint
  | .snippet => palette.snippet
  | .info => palette.info
  | .cellEmpty => palette.cellEmpty
  | .cellNonzero => palette.cellNonzero
  | .pointer => palette.pointer
  | .opMove => palette.opMove
  | .opInc => palette.opInc
  | .opDec => palette.opDec
  | .opOutput => palette.opOutput
  | .opInput => palette.opInput
  | .opBracket => palette.opBracket
  | .comment => palette.comment

@[simp] theorem get_ofRoles (f : Role → Colour) (role : Role) : (ofRoles f).get role = f role := by
  cases role <;> rfl

def default : Palette := ofRoles Role.defaultColour

end Palette

end TapeMachine
