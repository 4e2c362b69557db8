/-
Lines of a text. A line ends at a line feed, one carriage return directly before the line feed goes
with it, and a last line without a line feed is kept as it is.
-/
namespace TapeMachine.Text

def lines : List Char → List (List Char)
  | [] => []
  | '\n' :: cs => [] :: lines cs
  | '\r' :: '\n' :: cs => [] :: lines cs
  | c :: cs => if cs.isEmpty then [[c]] else (lines cs).modifyHead (c :: ·)

def unlines (ls : List (List Char)) : List Char := ls.flatMap (· ++ ['\n'])

example : lines "a\r\n\nb\r".toList = ["a".toList, [], "b\r".toList] := by decide

example : lines "a\r\r\n".toList = ["a\r".toList] := by decide

end TapeMachine.Text
