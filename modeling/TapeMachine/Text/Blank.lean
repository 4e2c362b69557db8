/-
White space as the Unicode property White_Space has it, and what a reader of lines does with it:
trimming both ends of a text and cutting a text into words.
-/
namespace TapeMachine.Text

/-- The code points with the property White_Space, as closed ranges in ascending order. -/
def blankRanges : List (Nat × Nat) :=
  [(0x09, 0x0D), (0x20, 0x20), (0x85, 0x85), (0xA0, 0xA0), (0x1680, 0x1680), (0x2000, 0x200A),
   (0x2028, 0x2029), (0x202F, 0x202F), (0x205F, 0x205F), (0x3000, 0x3000)]

def isBlank (c : Char) : Bool :=
  blankRanges.any fun range => range.1 ≤ c.toNat && c.toNat ≤ range.2

def trimStart (s : List Char) : List Char := s.dropWhile isBlank

def trimEnd (s : List Char) : List Char := (s.reverse.dropWhile isBlank).reverse

def trim (s : List Char) : List Char := trimEnd (trimStart s)

def words : List Char → List (List Char)
  | [] => []
  | c :: cs =>
    if isBlank c then words cs
    else if cs.head?.all isBlank then [c] :: words cs
    else (words cs).modifyHead (c :: ·)

def lower (s : List Char) : List Char := s.map Char.toLower

example : blankRanges.Pairwise (fun a b => a.2 < b.1) := by decide

example : words "  a bc\u00a0d ".toList = ["a".toList, "bc".toList, "d".toList] := by decide

theorem words_eq_nil_of_all_blank {s : List Char} (blank : s.all isBlank) : words s = [] := by
  induction s with
  | nil => rfl
  | cons c cs ih =>
    simp only [List.all_cons, Bool.and_eq_true] at blank
    simp [words, blank.1, ih blank.2]

end TapeMachine.Text
