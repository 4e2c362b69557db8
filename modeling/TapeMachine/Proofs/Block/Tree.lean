import TapeMachine.Proofs.Source.Nesting

/-
Code as a tree of single characters and loops. Reading it is one pass from right to left, and it
succeeds exactly on well nested code: the tree of a text is the one that is written as that text.
-/
namespace TapeMachine

open Source

/-- A sequence of single characters, brackets excepted, and of loops. -/
inductive Block
  | done
  | single (c : Char) (plain : c ≠ '[' ∧ c ≠ ']') (rest : Block)
  | loop (body rest : Block)

namespace Block

def text : Block → List Char
  | .done => []
  | .single c _ rest => c :: rest.text
  | .loop body rest => '[' :: (body.text ++ ']' :: rest.text)

/-- The blocks at the start of a text: first the one it starts in, then what follows each of the
loops around it, from the inside out. -/
def readAll? : List Char → Option (List Block)
  | [] => some [.done]
  | c :: cs =>
    match readAll? cs with
    | none | some [] => none
    | some (first :: around) =>
      if opening : c = '[' then
        match around with
        | [] => none
        | rest :: outer => some (.loop first rest :: outer)
      else if closing : c = ']' then some (.done :: first :: around)
      else some (.single c ⟨opening, closing⟩ first :: around)

def read? (code : List Char) : Option Block :=
  match readAll? code with
  | some [tree] => some tree
  | _ => none

theorem readAll?_opening {cs : List Char} {body rest : Block} {outer : List Block}
    (read : readAll? cs = some (body :: rest :: outer)) :
    readAll? ('[' :: cs) = some (.loop body rest :: outer) := by
  simp [readAll?, read]

theorem readAll?_closing {cs : List Char} {first : Block} {around : List Block}
    (read : readAll? cs = some (first :: around)) :
    readAll? (']' :: cs) = some (.done :: first :: around) := by
  simp [readAll?, read]

theorem readAll?_plain {c : Char} {cs : List Char} {first : Block} {around : List Block}
    (plain : c ≠ '[' ∧ c ≠ ']') (read : readAll? cs = some (first :: around)) :
    readAll? (c :: cs) = some (.single c plain first :: around) := by
  simp [readAll?, read, plain.1, plain.2]

theorem readAll?_text_append (b : Block) {cs : List Char} {around : List Block}
    (read : readAll? cs = some (.done :: around)) :
    readAll? (b.text ++ cs) = some (b :: around) := by
  induction b generalizing cs around with
  | done => exact read
  | single c plain rest ih => exact readAll?_plain plain (ih read)
  | loop body rest ihBody ihRest =>
    have inside := ihBody (readAll?_closing (ihRest read))
    have whole := readAll?_opening inside
    simpa [text] using whole

theorem read?_text (b : Block) : read? b.text = some b := by
  have read : readAll? (b.text ++ []) = some [b] := readAll?_text_append b rfl
  rw [List.append_nil] at read
  simp [read?, read]

theorem wellNested_text (b : Block) : WellNested b.text := by
  induction b with
  | done => exact .nil
  | single c plain rest ih => exact (WellNested.plain plain.1 plain.2).append ih
  | loop body rest ihBody ihRest =>
    have whole := ihBody.loop.append ihRest
    simpa [text] using whole

def joined : List Block → List Char
  | [] => []
  | [b] => b.text
  | first :: around => first.text ++ ']' :: joined around

theorem joined_readAll? {code : List Char} {blocks : List Block}
    (read : readAll? code = some blocks) : joined blocks = code := by
  induction code generalizing blocks with
  | nil =>
    cases read
    rfl
  | cons c cs ih =>
    unfold readAll? at read
    split at read
    · cases read
    · cases read
    · rename_i first around inside
      have same := ih inside
      split at read
      · rename_i opening
        cases around with
        | nil => cases read
        | cons rest outer =>
          cases read
          rw [opening, ← same]
          cases outer <;> simp [joined, text]
      · split at read
        · rename_i closing
          cases read
          rw [closing, ← same]
          rfl
        · cases read
          rw [← same]
          cases around <;> rfl

theorem exists_readAll? {d : Nat} {code : List Char} (nested : depth? d code = some 0) :
    ∃ first around, readAll? code = some (first :: around) ∧ around.length = d := by
  induction code generalizing d with
  | nil =>
    cases nested
    exact ⟨.done, [], rfl, rfl⟩
  | cons c cs ih =>
    by_cases opening : c = '['
    · subst opening
      obtain ⟨body, around, read, length⟩ := ih nested
      cases around with
      | nil => cases length
      | cons rest outer => exact ⟨_, outer, readAll?_opening read, Nat.succ.inj length⟩
    · by_cases closing : c = ']'
      · subst closing
        cases d with
        | zero => cases nested
        | succ d =>
          obtain ⟨first, around, read, length⟩ := ih nested
          exact ⟨.done, first :: around, readAll?_closing read, congrArg Nat.succ length⟩
      · rw [depth?_plain opening closing] at nested
        obtain ⟨first, around, read, length⟩ := ih nested
        exact ⟨_, around, readAll?_plain ⟨opening, closing⟩ read, length⟩

theorem read?_eq_some_iff {code : List Char} {tree : Block} :
    read? code = some tree ↔ tree.text = code := by
  constructor
  · intro read
    unfold read? at read
    split at read
    · rename_i inside
      cases read
      exact joined_readAll? inside
    · cases read
  · rintro rfl
    exact read?_text tree

theorem exists_read?_iff {code : List Char} :
    (∃ tree, read? code = some tree) ↔ WellNested code := by
  constructor
  · intro readable
    obtain ⟨tree, read⟩ := readable
    rw [← read?_eq_some_iff.mp read]
    exact wellNested_text tree
  · intro nested
    obtain ⟨tree, around, read, length⟩ := exists_readAll? (wellNested_iff_depth.mp nested)
    obtain rfl := List.length_eq_zero_iff.mp length
    exact ⟨tree, by simp [read?, read]⟩

end Block

end TapeMachine
