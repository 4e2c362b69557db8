import TapeMachine.Instruction
import TapeMachine.Palette

/-
Highlighted code: instructions in bold in the colour of their kind, all else in italics in the
colour of comments, as maximal runs of one style.
-/
namespace TapeMachine

structure Style where
  foreground : Colour
  bold : Bool
  italic : Bool
  deriving DecidableEq, Repr

def Instruction.role : Instruction → Role
  | .right | .left => .opMove
  | .increment => .opInc
  | .decrement => .opDec
  | .print => .opOutput
  | .read => .opInput
  | .loopStart | .loopEnd => .opBracket

def Style.ofChar (palette : Palette) (c : Char) : Style :=
  match Instruction.ofChar? c with
  | some i => { foreground := palette.get i.role, bold := true, italic := false }
  | none => { foreground := palette.comment, bold := false, italic := true }

structure StyledRun where
  style : Style
  text : List Char
  deriving DecidableEq, Repr

def StyledRun.ofChars? (palette : Palette) : List Char → Option StyledRun
  | [] => none
  | c :: cs => some { style := .ofChar palette c, text := c :: cs }

/-- Characters with equal styles that stand together are one run, also when they are different
instructions that the palette gives one colour. -/
def highlight (palette : Palette) (line : List Char) : List StyledRun :=
  (line.splitBy fun a b => Style.ofChar palette a = Style.ofChar palette b).filterMap
    (StyledRun.ofChars? palette)

end TapeMachine
