import TapeMachine.Report

/-
The window on a text around one of its characters. It shows what stands before and after that
character up to a distance, cut short only where the text ends, and the caret is as far to the right
as the part before is long. A position past the end has a window too, with the caret as far behind
the text as the position is. The steps that could fail on the way, sums, differences and cuts, do
not.
-/
namespace TapeMachine

variable {code : List Char} {position : Nat}

/-- A text taken apart around one of its characters. The parts that are cut off are at the ends. -/
structure Excerpt where
  cutBefore : List Char
  before : List Char
  character : Char
  after : List Char
  cutAfter : List Char

namespace Excerpt

def shown (x : Excerpt) : List Char := x.before ++ x.character :: x.after

def text (x : Excerpt) : List Char := x.cutBefore ++ (x.shown ++ x.cutAfter)

def index (x : Excerpt) : Nat := x.cutBefore.length + x.before.length

/-- Up to `reach` characters are shown on either side, and fewer only where nothing is cut off. -/
structure Reaches (x : Excerpt) (reach : Nat) : Prop where
  before_le : x.before.length ≤ reach
  before_short : x.before.length < reach → x.cutBefore = []
  after_le : x.after.length ≤ reach
  after_short : x.after.length < reach → x.cutAfter = []

theorem getElem?_text (x : Excerpt) : x.text[x.index]? = some x.character := by
  simp [text, shown, index]

end Excerpt

theorem exists_excerpt (inside : position < code.length) (reach : Nat) :
    ∃ x : Excerpt, x.text = code ∧ x.index = position ∧ x.Reaches reach := by
  refine ⟨{ cutBefore := code.take (position - reach)
            before := (code.take position).drop (position - reach)
            character := code[position]
            after := (code.drop (position + 1)).take reach
            cutAfter := (code.drop (position + 1)).drop reach }, ?_, ?_, ?_⟩
  · have front : code.take (position - reach) ++ (code.take position).drop (position - reach) =
        code.take position := by
      have same : (code.take position).take (position - reach) = code.take (position - reach) := by
        rw [List.take_take, Nat.min_eq_left (Nat.sub_le position reach)]
      rw [← same, List.take_append_drop]
    simp only [Excerpt.text, Excerpt.shown, List.append_assoc, List.cons_append,
      List.take_append_drop]
    rw [← List.append_assoc, front, List.getElem_cons_drop, List.take_append_drop]
  · simp only [Excerpt.index, List.length_take, List.length_drop]
    omega
  · constructor <;> simp only [List.length_take, List.length_drop]
    · omega
    · intro short
      rw [show position - reach = 0 by omega, List.take_zero]
    · omega
    · intro short
      rw [List.drop_eq_nil_iff, List.length_drop]
      omega

namespace Window

theorem around_eq (x : Excerpt) (reaches : x.Reaches reach) :
    around x.text x.index = { excerpt := x.shown, caret := x.before.length } := by
  obtain ⟨before_le, before_short, after_le, after_short⟩ := reaches
  have start : min (x.index - reach) x.text.length = x.cutBefore.length := by
    simp only [Excerpt.text, Excerpt.shown, Excerpt.index, List.length_append, List.length_cons]
    by_cases short : x.before.length < reach
    · rw [before_short short, List.length_nil]
      omega
    · omega
  have stop : x.text.take (x.index + reach + 1) = x.cutBefore ++ x.shown := by
    rw [Excerpt.text, ← List.append_assoc]
    have shown : (x.cutBefore ++ x.shown).length = x.index + 1 + x.after.length := by
      simp only [Excerpt.shown, Excerpt.index, List.length_append, List.length_cons]
      omega
    by_cases short : x.after.length < reach
    · rw [after_short short, List.append_nil, List.take_of_length_le (by omega)]
    · exact List.take_left' (by omega)
  simp only [around, start, stop]
  rw [List.drop_left, Excerpt.index, Nat.add_sub_cancel_left]

/-- The same window for a position counted from one, if no difference is below zero and the text can
be cut where the window starts and stops. -/
def checked? (code : List Char) (position : Nat) : Option Window :=
  let index := position - 1
  let start := min (index - reach) code.length
  let stop := min (index + reach + 1) code.length
  if 1 ≤ position ∧ start ≤ index ∧ start ≤ stop ∧ stop ≤ code.length then
    some { excerpt := (code.take stop).drop start, caret := index - start }
  else none

theorem checked?_eq (counted : 1 ≤ position) :
    checked? code position = some (around code (position - 1)) := by
  simp only [checked?, around, ← List.take_eq_take_min]
  exact if_pos ⟨counted, by omega, by omega, by omega⟩

/-- The window around a position counted from zero, by numbers up to `largest`: what is one past the
last character within reach must be such a number. -/
def bounded? (largest : Nat) (code : List Char) (position : Nat) : Option Window :=
  if position + reach + 1 ≤ largest then checked? code (position + 1) else none

theorem bounded?_eq {largest : Nat} (room : position + reach + 1 ≤ largest) :
    bounded? largest code position = some (around code position) := by
  rw [bounded?, if_pos room, checked?_eq (Nat.succ_pos position), Nat.succ_sub_one]

theorem exists_cut (code : List Char) (position : Nat) :
    ∃ cutBefore cutAfter, cutBefore ++ ((around code position).excerpt ++ cutAfter) = code ∧
      cutBefore.length = min (position - reach) code.length ∧
      cutBefore.length + (around code position).excerpt.length =
        min (position + reach + 1) code.length := by
  let start := min (position - reach) code.length
  let stop := position + reach + 1
  refine ⟨code.take start, code.drop stop, ?whole, ?start, ?stop⟩
  case whole =>
    have front : code.take start ++ (code.take stop).drop start = code.take stop := by
      have same : (code.take stop).take start = code.take start := by
        rw [List.take_take, Nat.min_eq_left (by omega)]
      rw [← same, List.take_append_drop]
    show code.take start ++ ((code.take stop).drop start ++ code.drop stop) = code
    rw [← List.append_assoc, front, List.take_append_drop]
  case start =>
    rw [List.length_take]
    omega
  case stop =>
    simp only [around, List.length_take, List.length_drop]
    omega

/-- The window on a text at any position shows a part of the text that starts and stops as far from
the position as the window reaches, or where the text does. The caret is under the character at the
position; past the end of the text it is as far behind the last character as the position is. -/
theorem caret_column_follows_position (code : List Char) (position : Nat) :
    ∃ cutBefore cutAfter column,
      cutBefore ++ ((around code position).excerpt ++ cutAfter) = code ∧
      (around code position).excerpt.length ≤ 65 ∧
      cutBefore.length = min (position - 32) code.length ∧
      cutBefore.length + (around code position).excerpt.length = min (position + 33) code.length ∧
      (around code position).caretLine = List.replicate column ' ' ++ ['^'] ∧
      cutBefore.length + column = position ∧
      (position < code.length → ∃ c, code[position]? = some c ∧
        (around code position).excerpt[column]? = some c) ∧
      (code.length ≤ position →
        column = (around code position).excerpt.length + (position - code.length)) ∧
      ∀ largest, position + 33 ≤ largest →
        bounded? largest code position = some (around code position) := by
  obtain ⟨cutBefore, cutAfter, whole, start, stop⟩ := exists_cut code position
  have reach : reach = 32 := rfl
  rw [reach] at start stop
  refine ⟨cutBefore, cutAfter, position - cutBefore.length, whole, by omega, start, stop, ?line,
    by omega, ?under, ?past, fun largest room => bounded?_eq room⟩
  case line => rw [caretLine, start, around, reach]
  case under =>
    intro inside
    have shown : position - cutBefore.length < (around code position).excerpt.length := by omega
    refine ⟨code[position], List.getElem?_eq_getElem inside, ?_⟩
    calc
      (around code position).excerpt[position - cutBefore.length]? =
          ((around code position).excerpt ++ cutAfter)[position - cutBefore.length]? :=
        (List.getElem?_append_left shown).symm
      _ = (cutBefore ++ ((around code position).excerpt ++ cutAfter))[position]? :=
        (List.getElem?_append_right (by omega)).symm
      _ = some code[position] := by rw [whole, List.getElem?_eq_getElem inside]
  case past =>
    intro past
    omega

/-- The last character of a text that is too long for one window, and the place right behind it. -/
theorem caret_column_at_end_of_long_text :
    (∃ c, (List.replicate 34 '+' ++ ['x'])[34]? = some c ∧
        (around (List.replicate 34 '+' ++ ['x']) 34).excerpt[32]? = some c) ∧
      (around (List.replicate 34 '+' ++ ['x']) 35).caretLine =
        List.replicate (around (List.replicate 34 '+' ++ ['x']) 35).excerpt.length ' ' ++ ['^'] ∧
      bounded? Text.maxWord64 (List.replicate 34 '+' ++ ['x']) 35 =
        some (around (List.replicate 34 '+' ++ ['x']) 35) := by
  obtain ⟨before, _, column, _, _, start, _, _, place, under, _, _⟩ :=
    caret_column_follows_position (List.replicate 34 '+' ++ ['x']) 34
  obtain ⟨_, _, behind, _, _, _, _, line, _, _, past, bounded⟩ :=
    caret_column_follows_position (List.replicate 34 '+' ++ ['x']) 35
  have cut : before.length = 2 := start
  have last : column = 32 := by omega
  have next : behind = (around (List.replicate 34 '+' ++ ['x']) 35).excerpt.length :=
    past (by decide)
  refine ⟨?_, ?_, bounded Text.maxWord64 (by decide)⟩
  · rw [← last]
    exact under (by decide)
  · rw [← next]
    exact line

/-- One past the end, the caret is not right behind the last character. -/
theorem caret_past_end_stands_apart :
    "[+".toList.length ≤ 3 ∧ 3 + 33 ≤ Text.maxWord64 ∧
      (around "[+".toList 3).excerpt = "[+".toList ∧
      (around "[+".toList 3).caretLine ≠ List.replicate "[+".toList.length ' ' ++ ['^'] ∧
      (around "[+".toList 3).text = "  [+\n     ^\n" := by
  decide

end Window

end TapeMachine
