/-
Comments and white space in a program text. Stripping removes line comments, then the four white
space characters, then block comments, in this order: a line comment needs the line feed that the
second pass removes, and a block comment may be written with white space inside its markers.
-/
namespace TapeMachine.Source

/-- Removes every line comment, leaving the line feed that ends it. The flag says whether the text
starts inside a comment. -/
def dropLineComments : Bool → List Char → List Char
  | _, [] => []
  | true, c :: cs => if c = '\n' then c :: dropLineComments false cs else dropLineComments true cs
  | false, c :: cs =>
    if c = '/' ∧ cs.head? = some '/' then dropLineComments true cs
    else c :: dropLineComments false cs

def isSpace (c : Char) : Bool := c = ' ' || c = '\t' || c = '\n' || c = '\r'

def dropSpaces (s : List Char) : List Char := s.filter (!isSpace ·)

def afterBlock? : List Char → Option (List Char)
  | [] => none
  | '*' :: '/' :: cs => some cs
  | _ :: cs => afterBlock? cs

theorem afterBlock?_length {s rest : List Char} (h : afterBlock? s = some rest) :
    rest.length < s.length := by
  fun_induction afterBlock? s with
  | case1 => simp at h
  | case2 cs =>
    cases h
    simp only [List.length_cons]
    omega
  | case3 c cs _ ih => exact Nat.lt_succ_of_lt (ih h)

def dropBlockComments (s : List Char) : List Char :=
  match s with
  | [] => []
  | '/' :: '*' :: cs =>
    match found : afterBlock? cs with
    | some rest =>
      have := afterBlock?_length found
      dropBlockComments rest
    | none => '/' :: '*' :: cs
  | c :: cs => c :: dropBlockComments cs
termination_by s.length
decreasing_by
  · simp only [List.length_cons]
    omega
  · simp

theorem dropBlockComments_block {cs rest : List Char} (ended : afterBlock? cs = some rest) :
    dropBlockComments ('/' :: '*' :: cs) = dropBlockComments rest := by
  rw [dropBlockComments]
  split
  · rename_i found
    rw [ended] at found
    cases found
    rfl
  · rename_i found
    rw [ended] at found
    cases found

theorem dropBlockComments_cons {c : Char} {cs : List Char}
    (plain : ¬(c = '/' ∧ cs.head? = some '*')) :
    dropBlockComments (c :: cs) = c :: dropBlockComments cs := by
  rw [dropBlockComments]
  rintro rest rfl rfl
  exact plain ⟨rfl, rfl⟩

def strip (source : List Char) : List Char :=
  dropBlockComments (dropSpaces (dropLineComments false source))

def startsWithMarker : List Char → Bool
  | '/' :: '*' :: _ => true
  | '*' :: '/' :: _ => true
  | _ => false

def marker? : List Char → Option Nat
  | [] => none
  | c :: cs => if startsWithMarker (c :: cs) then some 0 else (marker? cs).map (· + 1)

end TapeMachine.Source
