import TapeMachine.Proofs.Source.Stripped

/-
A program text as pieces: characters of code, white space and comments. Line comments are cut first,
then white space is dropped and block comments are cut last, so two slashes that come together
outside a line comment would start one. As long as there are none, stripping leaves the characters
of code and nothing else.
-/
namespace TapeMachine.Source

inductive Piece
  | code (c : Char) (plain : isPlain c = true)
  | space (c : Char) (blank : isSpace c = true)
  | lineComment (body : List Char) (oneLine : '\n' ∉ body)
  /-- The end marker may not be in the body, nor come about in it when white space is dropped. -/
  | blockComment (body : List Char) (unbroken : ¬ ['*', '/'] <:+: dropSpaces body)

namespace Piece

def written : Piece → List Char
  | .code c _ => [c]
  | .space c _ => [c]
  | .lineComment body _ => '/' :: '/' :: (body ++ ['\n'])
  | .blockComment body _ => '/' :: '*' :: (body ++ ['*', '/'])

def code? : Piece → Option Char
  | .code c _ => some c
  | .space _ _ | .lineComment _ _ | .blockComment _ _ => none

def isLineComment : Piece → Bool
  | .lineComment _ _ => true
  | .code _ _ | .space _ _ | .blockComment _ _ => false

def text (pieces : List Piece) : List Char := pieces.flatMap written

/-- Wherever two slashes stand together in the text, both belong to one line comment. -/
def SlashesInLineComments (pieces : List Piece) : Prop :=
  ∀ i, (text pieces)[i]? = some '/' → (text pieces)[i + 1]? = some '/' →
    ∃ before comment after, pieces = before ++ comment :: after ∧ comment.isLineComment = true ∧
      (text before).length ≤ i ∧ i + 1 < (text before).length + comment.written.length

theorem text_cons (p : Piece) (ps : List Piece) : text (p :: ps) = p.written ++ text ps :=
  List.flatMap_cons

variable {p : Piece} {ps : List Piece}

theorem SlashesInLineComments.tail (apart : SlashesInLineComments (p :: ps)) :
    SlashesInLineComments ps := by
  intro i first second
  have shift (j : Nat) : (text (p :: ps))[p.written.length + j]? = (text ps)[j]? := by
    rw [text_cons, List.getElem?_append_right (Nat.le_add_right _ _), Nat.add_sub_cancel_left]
  obtain ⟨before, comment, after, split, line, start, stop⟩ :=
    apart (p.written.length + i) ((shift i).trans first) ((shift (i + 1)).trans second)
  cases before with
  | nil =>
    cases split
    simp only [text, List.flatMap_nil, List.length_nil] at stop
    omega
  | cons q rest =>
    cases split
    rw [text_cons, List.length_append] at start stop
    exact ⟨rest, comment, after, rfl, line, by omega, by omega⟩

theorem SlashesInLineComments.head (apart : SlashesInLineComments (p :: ps))
    (other : p.isLineComment = false) {i : Nat} (inside : i < p.written.length)
    (first : (text (p :: ps))[i]? = some '/') : (text (p :: ps))[i + 1]? ≠ some '/' := by
  intro second
  obtain ⟨before, comment, after, split, line, start, _⟩ := apart i first second
  cases before with
  | nil =>
    cases split
    rw [other] at line
    cases line
  | cons q rest =>
    cases split
    rw [text_cons, List.length_append] at start
    omega

end Piece

theorem dropLineComments_append {s rest : List Char}
    (apart : ∀ i < s.length, (s ++ rest)[i]? = some '/' → (s ++ rest)[i + 1]? ≠ some '/') :
    dropLineComments false (s ++ rest) = s ++ dropLineComments false rest := by
  induction s with
  | nil => rfl
  | cons c cs ih =>
    have plain : ¬ (c = '/' ∧ (cs ++ rest).head? = some '/') := by
      rintro ⟨rfl, next⟩
      rw [List.head?_eq_getElem?] at next
      exact apart 0 (Nat.succ_pos _) rfl next
    have later := ih fun i inside => apart (i + 1) (Nat.succ_lt_succ inside)
    simp only [List.cons_append, dropLineComments, plain, ↓reduceIte, later]

theorem dropLineComments_true_append {body : List Char} (oneLine : '\n' ∉ body)
    (rest : List Char) :
    dropLineComments true (body ++ '\n' :: rest) = '\n' :: dropLineComments false rest := by
  induction body with
  | nil => rfl
  | cons c cs ih =>
    simp only [List.mem_cons, not_or] at oneLine
    simp only [List.cons_append, dropLineComments, Ne.symm oneLine.1, ↓reduceIte]
    exact ih oneLine.2

theorem dropLineComments_comment {body : List Char} (oneLine : '\n' ∉ body) (rest : List Char) :
    dropLineComments false ('/' :: '/' :: (body ++ '\n' :: rest)) =
      '\n' :: dropLineComments false rest := by
  rw [← dropLineComments_true_append oneLine rest]
  rfl

theorem afterBlock?_cons {c : Char} {cs : List Char} (plain : ¬ (c = '*' ∧ cs.head? = some '/')) :
    afterBlock? (c :: cs) = afterBlock? cs := by
  rw [afterBlock?]
  rintro rest rfl rfl
  exact plain ⟨rfl, rfl⟩

/-- The first end marker is the one behind the body, also if the body ends in a star or starts with
a slash. -/
theorem afterBlock?_append {body : List Char} (unbroken : ¬ ['*', '/'] <:+: body)
    (rest : List Char) : afterBlock? (body ++ '*' :: '/' :: rest) = some rest := by
  induction body with
  | nil => rfl
  | cons c cs ih =>
    rw [pair_infix_cons_iff, not_or] at unbroken
    have plain : ¬ (c = '*' ∧ (cs ++ '*' :: '/' :: rest).head? = some '/') := by
      rintro ⟨star, slash⟩
      cases cs with
      | nil => cases slash
      | cons d ds => exact unbroken.1 ⟨star, slash⟩
    rw [List.cons_append, afterBlock?_cons plain]
    exact ih unbroken.2

namespace Piece

def uncommented : Piece → List Char
  | .lineComment _ _ => ['\n']
  | p => p.written

theorem dropLineComments_text {pieces : List Piece} (apart : SlashesInLineComments pieces) :
    dropLineComments false (text pieces) = pieces.flatMap uncommented := by
  induction pieces with
  | nil => rfl
  | cons p ps ih =>
    have later := ih apart.tail
    rw [List.flatMap_cons, ← later]
    cases p with
    | lineComment body oneLine =>
      have whole : text (.lineComment body oneLine :: ps) =
          '/' :: '/' :: (body ++ '\n' :: text ps) := by
        simp [text_cons, written]
      rw [whole, dropLineComments_comment oneLine]
      rfl
    | code | space | blockComment =>
      rw [text_cons]
      refine dropLineComments_append fun i inside first => ?_
      rw [← text_cons] at first ⊢
      exact apart.head rfl inside first

def compact : Piece → List Char
  | .code c _ => [c]
  | .space _ _ | .lineComment _ _ => []
  | .blockComment body _ => '/' :: '*' :: (dropSpaces body ++ ['*', '/'])

theorem dropSpaces_uncommented (p : Piece) : dropSpaces p.uncommented = p.compact := by
  cases p with
  | code c plain =>
    have solid : ∀ d ∈ [c], isSpace d = false := by
      simpa using isSpace_of_isPlain plain
    exact dropSpaces_eq_self solid
  | space c blank => simp [uncommented, written, compact, dropSpaces, blank]
  | lineComment body oneLine => rfl
  | blockComment body unbroken => simp [uncommented, written, compact, dropSpaces, isSpace]

theorem dropSpaces_flatMap (pieces : List Piece) :
    dropSpaces (pieces.flatMap uncommented) = pieces.flatMap compact := by
  induction pieces with
  | nil => rfl
  | cons p ps ih =>
    rw [List.flatMap_cons, List.flatMap_cons, ← ih, ← dropSpaces_uncommented]
    exact List.filter_append _ _

theorem dropBlockComments_flatMap (pieces : List Piece) :
    dropBlockComments (pieces.flatMap compact) = pieces.filterMap code? := by
  induction pieces with
  | nil => rw [List.flatMap_nil, dropBlockComments, List.filterMap_nil]
  | cons p ps ih =>
    rw [List.flatMap_cons]
    cases p with
    | code c plain =>
      have opens : ¬ (c = '/' ∧ (ps.flatMap compact).head? = some '*') := by
        rintro ⟨rfl, _⟩
        cases plain
      exact (dropBlockComments_cons opens).trans (congrArg (c :: ·) ih)
    | space | lineComment => exact ih
    | blockComment body unbroken =>
      have ended := afterBlock?_append unbroken (ps.flatMap compact)
      rw [compact, List.cons_append, List.cons_append, List.append_assoc]
      exact (dropBlockComments_block ended).trans ih

theorem strip_text {pieces : List Piece} (apart : SlashesInLineComments pieces) :
    strip (text pieces) = pieces.filterMap code? := by
  rw [strip, dropLineComments_text apart, dropSpaces_flatMap, dropBlockComments_flatMap]

theorem isPlain_of_mem_code {pieces : List Piece} {c : Char}
    (member : c ∈ pieces.filterMap code?) : isPlain c = true := by
  obtain ⟨p, _, same⟩ := List.mem_filterMap.mp member
  cases p with
  | code d plain =>
    cases same
    exact plain
  | space | lineComment | blockComment => cases same

end Piece

/-- Comments and white space leave no trace: the stripped text is its characters of code in order,
and that is accepted exactly if it has as many opening as closing brackets. -/
theorem comments_and_spaces_leave_no_trace {pieces : List Piece}
    (apart : Piece.SlashesInLineComments pieces) :
    strip (Piece.text pieces) = pieces.filterMap Piece.code? ∧
      (sanitize (Piece.text pieces) = .ok (pieces.filterMap Piece.code?) ↔
        (pieces.filterMap Piece.code?).count '[' = (pieces.filterMap Piece.code?).count ']') := by
  have stripped := Piece.strip_text apart
  refine ⟨stripped, ?_, ?_⟩
  · intro accepted
    have sound := (sanitize_eq_ok_iff.mp accepted).2
    exact Pairing.scan_balanced_iff.mp (defect?_eq_none_iff.mp sound).2
  · intro balanced
    have plain := sanitize_plain (fun c member => Piece.isPlain_of_mem_code member) balanced
    exact sanitize_eq_ok_iff.mpr ⟨stripped, (sanitize_eq_ok_iff.mp plain).2⟩

/-- A line comment with a third slash, and block comments that look as if they ended too early or
too late. -/
theorem comments_leave_no_trace_in_loop :
    sanitize ['[', '/', '/', '/', ']', '\n', '/', '*', '/', '*', '/', ' ', '/', '*', '*', '\n', '*',
      '*', '/', ']'] = .ok ['[', ']'] := by
  let pieces : List Piece :=
    [.code '[' rfl, .lineComment ['/', ']'] (by decide),
      .blockComment ['/'] (by simp [dropSpaces, isSpace, pair_infix_cons_iff]), .space ' ' rfl,
      .blockComment ['*', '\n', '*'] (by simp [dropSpaces, isSpace, pair_infix_cons_iff]),
      .code ']' rfl]
  have located : ∀ i < 20, (Piece.text pieces)[i]? = some '/' →
      (Piece.text pieces)[i + 1]? = some '/' → 1 ≤ i ∧ i + 1 < 6 := by
    decide
  have apart : Piece.SlashesInLineComments pieces := by
    intro i first second
    obtain ⟨early, late⟩ := located i (List.getElem?_eq_some_iff.mp first).1 first second
    exact ⟨pieces.take 1, _, pieces.drop 2, rfl, rfl, early, late⟩
  exact (comments_and_spaces_leave_no_trace apart).2.mpr rfl

end TapeMachine.Source
