/-
What a program of the command line writes: text for standard output and text for standard error.
-/
namespace TapeMachine

structure Printed where
  out : String := ""
  err : String := ""
  deriving DecidableEq, Repr

namespace Printed

instance : Append Printed where
  append a b := { out := a.out ++ b.out, err := a.err ++ b.err }

@[simp] theorem out_append (a b : Printed) : (a ++ b).out = a.out ++ b.out := rfl

@[simp] theorem err_append (a b : Printed) : (a ++ b).err = a.err ++ b.err := rfl

theorem append_assoc (a b c : Printed) : a ++ b ++ c = a ++ (b ++ c) := by
  show Printed.mk _ _ = Printed.mk _ _
  simp [String.append_assoc]

@[simp] theorem empty_append (a : Printed) : { : Printed } ++ a = a := by
  show Printed.mk _ _ = a
  simp

@[simp] theorem append_empty (a : Printed) : a ++ { : Printed } = a := by
  show Printed.mk _ _ = a
  simp

end Printed

end TapeMachine
