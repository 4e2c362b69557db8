import TapeMachine.Colour
import TapeMachine.Proofs.Text.Numeral

/-
Painted text on a terminal. An escape sequence shows nothing and sets the colour of all that is
shown after it, so a painted piece is shown in its colour and leaves none behind.
-/
namespace TapeMachine.Text

variable {s : List Char} {pen : Option (List Char)}

/-- A character that is shown, with the code of its colour if it has one. -/
structure Glyph where
  char : Char
  pen : Option (List Char)
  deriving DecidableEq, Repr

def inked (pen : Option (List Char)) (s : List Char) : List Glyph := s.map ({ char := ·, pen })

@[simp] theorem map_char_inked (pen : Option (List Char)) (s : List Char) :
    (inked pen s).map (·.char) = s := by
  simp [inked, Function.comp_def]

/-- The pen after an escape sequence, which is a bracket and a code. The code zero takes every
colour away. -/
def penAfter (sequence : List Char) : Option (List Char) :=
  if sequence = ['[', '0'] then none else some sequence.tail

/-- What is shown of a text that starts with this pen, outside of escape sequences or inside one of
which so much has been read. A sequence goes on to the next `m`. -/
def shown : Option (List Char) → Option (List Char) → List Char → List Glyph
  | _, _, [] => []
  | pen, none, c :: cs =>
    if c = '\x1b' then shown pen (some []) cs else { char := c, pen } :: shown pen none cs
  | pen, some read, c :: cs =>
    if c = 'm' then shown (penAfter read) none cs else shown pen (some (read ++ [c])) cs

/-- The text without its escape sequences. The flag says whether it starts inside one. -/
def dropEscapes : Bool → List Char → List Char
  | _, [] => []
  | false, c :: cs => if c = '\x1b' then dropEscapes true cs else c :: dropEscapes false cs
  | true, c :: cs => dropEscapes (c ≠ 'm') cs

theorem map_char_shown (pen read? : Option (List Char)) (s : List Char) :
    (shown pen read? s).map (·.char) = dropEscapes read?.isSome s := by
  induction s generalizing pen read? with
  | nil => cases read? <;> rfl
  | cons c cs ih =>
    cases read? with
    | none =>
      simp only [shown, Option.isSome_none, dropEscapes]
      split
      · exact ih pen (some [])
      · rw [List.map_cons, ih]
        rfl
    | some read =>
      simp only [shown, Option.isSome_some, dropEscapes]
      split
      · rename_i closed
        rw [ih]
        simp [closed]
      · rename_i going
        rw [ih]
        simp [going]

theorem shown_append (clean : '\x1b' ∉ s) (t : List Char) :
    shown pen none (s ++ t) = inked pen s ++ shown pen none t := by
  induction s with
  | nil => rfl
  | cons c cs ih =>
    rw [List.mem_cons, not_or] at clean
    rw [List.cons_append, shown, if_neg (Ne.symm clean.1), ih clean.2]
    rfl

theorem shown_sequence (read : List Char) (closed : 'm' ∉ s) (t : List Char) :
    shown pen (some read) (s ++ 'm' :: t) = shown (penAfter (read ++ s)) none t := by
  induction s generalizing read with
  | nil => rw [List.append_nil, List.nil_append, shown, if_pos rfl]
  | cons c cs ih =>
    rw [List.mem_cons, not_or] at closed
    rw [List.cons_append, shown, if_neg (Ne.symm closed.1), ih _ closed.2, List.append_assoc]
    rfl

end TapeMachine.Text

namespace TapeMachine.Colour

open Text

theorem code_rgb (r g b : Nat) :
    (rgb r g b).code.toList =
      "38;2;".toList ++ (Nat.toDigits 10 r ++
        ';' :: (Nat.toDigits 10 g ++ ';' :: Nat.toDigits 10 b)) := by
  have joined : (rgb r g b).code =
      "38;2;" ++ toString r ++ ";" ++ toString g ++ ";" ++ toString b := rfl
  rw [joined]
  simp

theorem code_closed (colour : Colour) : 'm' ∉ colour.code.toList := by
  cases colour with
  | rgb r g b =>
    have digits (n : Nat) : 'm' ∉ Nat.toDigits 10 n := not_mem_toDigits (by decide)
    rw [code_rgb]
    simp [digits]
  | _ => decide

theorem code_ne_zero (colour : Colour) : colour.code.toList ≠ ['0'] := by
  cases colour with
  | rgb r g b =>
    rw [code_rgb]
    simp
  | _ => decide

def pen (colour : Colour) : Option (List Char) := some colour.code.toList

theorem penAfter_code (colour : Colour) : penAfter ('[' :: colour.code.toList) = colour.pen := by
  have code : '[' :: colour.code.toList ≠ ['[', '0'] := by simp [code_ne_zero]
  rw [penAfter, if_neg code, List.tail_cons, Colour.pen]

/-- What is painted is shown in its colour, whatever the pen was, and what follows it in none. -/
theorem shown_paint (colour : Colour) {text : String} (clean : '\x1b' ∉ text.toList)
    (before : Option (List Char)) (t : List Char) :
    shown before none ((colour.paint text).toList ++ t) =
      inked colour.pen text.toList ++ shown none none t := by
  have whole : (colour.paint text).toList ++ t =
      '\x1b' :: (('[' :: colour.code.toList) ++
        'm' :: (text.toList ++ '\x1b' :: (['[', '0'] ++ 'm' :: t))) := by
    simp [Colour.paint]
  have opening : 'm' ∉ '[' :: colour.code.toList := by simp [code_closed]
  have closing : 'm' ∉ ['[', '0'] := by decide
  calc
    shown before none ((colour.paint text).toList ++ t) =
        shown colour.pen none (text.toList ++ '\x1b' :: (['[', '0'] ++ 'm' :: t)) := by
      rw [whole, shown, if_pos rfl, shown_sequence [] opening, List.nil_append, penAfter_code]
    _ = inked colour.pen text.toList ++
        shown colour.pen none ('\x1b' :: (['[', '0'] ++ 'm' :: t)) := shown_append clean _
    _ = inked colour.pen text.toList ++ shown none none t := by
      rw [shown, if_pos rfl, shown_sequence [] closing]
      rfl

end TapeMachine.Colour
