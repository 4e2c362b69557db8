/-
The eight instructions and the characters that stand for them.
-/
namespace TapeMachine

inductive Instruction
  | right
  | left
  | increment
  | decrement
  | print
  | read
  | loopStart
  | loopEnd
  deriving DecidableEq, Repr

namespace Instruction

def ofChar? : Char → Option Instruction
  | '>' => some .right
  | '<' => some .left
  | '+' => some .increment
  | '-' => some .decrement
  | '.' => some .print
  | ',' => some .read
  | '[' => some .loopStart
  | ']' => some .loopEnd
  | _ => none

def toChar : Instruction → Char
  | .right => '>'
  | .left => '<'
  | .increment => '+'
  | .decrement => '-'
  | .print => '.'
  | .read => ','
  | .loopStart => '['
  | .loopEnd => ']'

@[simp] theorem ofChar?_toChar (i : Instruction) : ofChar? i.toChar = some i := by
  cases i <;> rfl

theorem ofChar?_eq_some_iff {c : Char} {i : Instruction} :
    ofChar? c = some i ↔ c = i.toChar := by
  constructor
  · intro h
    unfold ofChar? at h
    split at h <;> simp_all [toChar] <;> subst h <;> rfl
  · rintro rfl
    exact ofChar?_toChar i

end Instruction

end TapeMachine
