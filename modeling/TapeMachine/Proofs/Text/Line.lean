import TapeMachine.Text.Blank
import TapeMachine.Text.Line

/-
Trimmed texts and texts cut into lines. Every text is lines that each end at a line feed, then a
last piece without one; the reader of lines keeps their order and drops one carriage return from
each line that has its line feed. What is visible is neither trimmed nor dropped.
-/
namespace TapeMachine.Text

variable {s t line tail : List Char} {ls : List (List Char)} {c : Char}

theorem trimStart_cons_of_blank (blank : isBlank c = true) (cs : List Char) :
    trimStart (c :: cs) = trimStart cs :=
  List.dropWhile_cons_of_pos blank

theorem trimStart_cons_of_not_blank (visible : isBlank c = false) (cs : List Char) :
    trimStart (c :: cs) = c :: cs := by
  refine List.dropWhile_cons_of_neg ?_
  simp [visible]

theorem trimStart_eq_nil_iff : trimStart s = [] ↔ s.all isBlank = true := by
  induction s with
  | nil => simp [trimStart]
  | cons c cs ih =>
    cases blank : isBlank c with
    | true => rw [trimStart_cons_of_blank blank, ih, List.all_cons, blank, Bool.true_and]
    | false => simp [trimStart_cons_of_not_blank blank, blank]

theorem trimStart_append (s t : List Char) :
    trimStart (s ++ t) = if s.all isBlank then trimStart t else trimStart s ++ t := by
  simp only [trimStart, List.dropWhile_append, List.isEmpty_iff, ← trimStart_eq_nil_iff]

theorem isBlank_of_head_trimStart {cs : List Char} (found : trimStart s = c :: cs) :
    isBlank c = false := by
  have stopped := List.head?_dropWhile_not isBlank s
  rw [show s.dropWhile isBlank = c :: cs from found] at stopped
  exact stopped

theorem trimStart_trimStart (s : List Char) : trimStart (trimStart s) = trimStart s := by
  cases found : trimStart s with
  | nil => rfl
  | cons c cs => exact trimStart_cons_of_not_blank (isBlank_of_head_trimStart found) cs

theorem trimEnd_eq_reverse (s : List Char) : trimEnd s = (trimStart s.reverse).reverse := rfl

theorem trimEnd_trimEnd (s : List Char) : trimEnd (trimEnd s) = trimEnd s := by
  simp only [trimEnd_eq_reverse, List.reverse_reverse, trimStart_trimStart]

theorem trimEnd_cons (visible : isBlank c = false) (cs : List Char) :
    trimEnd (c :: cs) = c :: trimEnd cs := by
  rw [trimEnd_eq_reverse, trimEnd_eq_reverse, List.reverse_cons, trimStart_append]
  split
  · rename_i blank
    rw [trimStart_eq_nil_iff.mpr blank, trimStart_cons_of_not_blank visible]
    rfl
  · exact List.reverse_append

theorem trimEnd_concat (blank : isBlank c = true) (s : List Char) :
    trimEnd (s ++ [c]) = trimEnd s := by
  rw [trimEnd_eq_reverse, List.reverse_append]
  exact congrArg List.reverse (trimStart_cons_of_blank blank s.reverse)

theorem trim_eq_cons {cs : List Char} (found : trimStart s = c :: cs) :
    trim s = c :: trimEnd cs := by
  rw [trim, found, trimEnd_cons (isBlank_of_head_trimStart found)]

theorem trim_eq_nil (blank : s.all isBlank = true) : trim s = [] := by
  rw [trim, trimStart_eq_nil_iff.mpr blank]
  rfl

theorem head?_trim (s : List Char) : (trim s).head? = (trimStart s).head? := by
  cases found : trimStart s with
  | nil => rw [trim_eq_nil (trimStart_eq_nil_iff.mp found), List.head?_nil]
  | cons c cs => rw [trim_eq_cons found, List.head?_cons, List.head?_cons]

theorem trimStart_trim (s : List Char) : trimStart (trim s) = trim s := by
  cases found : trimStart s with
  | nil => rw [trim_eq_nil (trimStart_eq_nil_iff.mp found)]; rfl
  | cons c cs =>
    rw [trim_eq_cons found, trimStart_cons_of_not_blank (isBlank_of_head_trimStart found)]

theorem trim_trim (s : List Char) : trim (trim s) = trim s := by
  rw [trim, trimStart_trim]
  exact trimEnd_trimEnd (trimStart s)

theorem trim_concat (blank : isBlank c = true) (s : List Char) : trim (s ++ [c]) = trim s := by
  unfold trim
  rw [trimStart_append]
  split
  · rename_i empty
    rw [trimStart_eq_nil_iff.mpr empty, trimStart_cons_of_blank blank]
    rfl
  · exact trimEnd_concat blank (trimStart s)

theorem trim_sublist (s : List Char) : (trim s).Sublist s := by
  have back : (trimEnd (trimStart s)).Sublist (trimStart s) := by
    have part := (List.dropWhile_sublist isBlank (l := (trimStart s).reverse)).reverse
    rwa [List.reverse_reverse] at part
  exact back.trans (List.dropWhile_sublist isBlank)

/-- A line without the carriage return that goes with its line feed. -/
def dropReturn (line : List Char) : List Char :=
  if line.getLast? = some '\r' then line.dropLast else line

theorem dropReturn_eq (line : List Char) :
    dropReturn line = line ∨ line = dropReturn line ++ ['\r'] := by
  unfold dropReturn
  split
  · rename_i last
    obtain ⟨front, rfl⟩ := List.getLast?_eq_some_iff.mp last
    simp
  · exact .inl rfl

theorem dropReturn_front (line : List Char) : dropReturn line <+: line := by
  rcases dropReturn_eq line with same | returned
  · exact ⟨[], by rw [same, List.append_nil]⟩
  · exact ⟨['\r'], returned.symm⟩

theorem dropReturn_cons (inside : line ≠ []) : dropReturn (c :: line) = c :: dropReturn line := by
  obtain ⟨d, ds, rfl⟩ := List.exists_cons_of_ne_nil inside
  simp only [dropReturn, List.getLast?_cons_cons, List.dropLast_cons_cons]
  split <;> rfl

theorem apply_dropReturn {α : Type} {f : List Char → α}
    (unseen : ∀ front, f (front ++ ['\r']) = f front) (line : List Char) :
    f (dropReturn line) = f line := by
  rcases dropReturn_eq line with same | returned
  · rw [same]
  · calc
      f (dropReturn line) = f (dropReturn line ++ ['\r']) := (unseen _).symm
      _ = f line := by rw [← returned]

theorem trim_dropReturn (line : List Char) : trim (dropReturn line) = trim line :=
  apply_dropReturn (trim_concat (by decide)) line

theorem unlines_cons (line : List Char) (ls : List (List Char)) :
    unlines (line :: ls) = line ++ '\n' :: unlines ls := by
  simp [unlines]

theorem all_isBlank_unlines (ls : List (List Char)) :
    (unlines ls).all isBlank = ls.all (·.all isBlank) := by
  have feed : isBlank '\n' = true := by decide
  induction ls with
  | nil => rfl
  | cons line ls ih => simp [unlines_cons, feed, ← ih]

theorem lines_cons (unbroken : c ≠ '\n') (apart : ¬ (c = '\r' ∧ t.head? = some '\n')) :
    lines (c :: t) = if t.isEmpty then [[c]] else (lines t).modifyHead (c :: ·) := by
  rw [lines]
  · exact unbroken
  · intro rest carriage feed
    exact apart ⟨carriage, by rw [feed]; rfl⟩

theorem lines_line (oneLine : '\n' ∉ line) (rest : List Char) :
    lines (line ++ '\n' :: rest) = dropReturn line :: lines rest := by
  induction line with
  | nil => rw [List.nil_append, lines]; rfl
  | cons c cs ih =>
    simp only [List.mem_cons, not_or] at oneLine
    have later := ih oneLine.2
    by_cases short : cs = []
    · subst short
      by_cases carriage : c = '\r'
      · subst carriage
        rw [List.cons_append, List.nil_append, lines]
        rfl
      · have single : dropReturn [c] = [c] := by simp [dropReturn, carriage]
        rw [List.cons_append, lines_cons (Ne.symm oneLine.1) (by simp [carriage]), later, single]
        simp [dropReturn]
    · have apart : ¬ (c = '\r' ∧ (cs ++ '\n' :: rest).head? = some '\n') := by
        intro both
        obtain ⟨d, ds, rfl⟩ := List.exists_cons_of_ne_nil short
        have feed : d = '\n' := by simpa using both.2
        exact oneLine.2 (by simp [feed])
      rw [List.cons_append, lines_cons (Ne.symm oneLine.1) apart, later, dropReturn_cons short]
      simp

theorem lines_last (oneLine : '\n' ∉ tail) (present : tail ≠ []) : lines tail = [tail] := by
  induction tail with
  | nil => exact absurd rfl present
  | cons c cs ih =>
    simp only [List.mem_cons, not_or] at oneLine
    have apart : ¬ (c = '\r' ∧ cs.head? = some '\n') := by
      intro both
      exact oneLine.2 (List.mem_of_head? both.2)
    rw [lines_cons (Ne.symm oneLine.1) apart]
    by_cases short : cs = []
    · simp [short]
    · simp [short, ih oneLine.2 short]

theorem lines_unlines_append (broken : ∀ line ∈ ls, '\n' ∉ line) (rest : List Char) :
    lines (unlines ls ++ rest) = ls.map dropReturn ++ lines rest := by
  induction ls with
  | nil => rfl
  | cons line ls ih =>
    have later := ih fun line member => broken line (List.mem_cons_of_mem _ member)
    rw [unlines_cons, List.append_assoc, List.cons_append,
      lines_line (broken line List.mem_cons_self), later]
    rfl

theorem lines_unlines (broken : ∀ line ∈ ls, '\n' ∉ line) :
    lines (unlines ls) = ls.map dropReturn := by
  simpa [lines] using lines_unlines_append broken []

/-- A text cut at its line feeds: lines that have one each, and a last piece that has none. -/
structure CutAt (s : List Char) (ls : List (List Char)) (tail : List Char) : Prop where
  whole : s = unlines ls ++ tail
  broken : ∀ line ∈ ls, '\n' ∉ line
  last : '\n' ∉ tail

theorem exists_cutAt (s : List Char) : ∃ ls tail, CutAt s ls tail := by
  induction s with
  | nil => exact ⟨[], [], rfl, by simp, by simp⟩
  | cons c cs ih =>
    obtain ⟨ls, tail, rfl, broken, last⟩ := ih
    by_cases feed : c = '\n'
    · subst feed
      refine ⟨[] :: ls, tail, ?_, ?_, last⟩
      · rw [unlines_cons]
        rfl
      · simpa using broken
    · cases ls with
      | nil => exact ⟨[], c :: tail, rfl, by simp, by simp [last, Ne.symm feed]⟩
      | cons line ls =>
        refine ⟨(c :: line) :: ls, tail, ?_, ?_, last⟩
        · rw [unlines_cons, unlines_cons]
          rfl
        · simpa [Ne.symm feed] using broken

theorem CutAt.lines_eq (cut : CutAt s ls tail) :
    lines s = ls.map dropReturn ++ if tail = [] then [] else [tail] := by
  rw [cut.whole, lines_unlines_append cut.broken]
  split
  · rename_i none
    rw [none]
    rfl
  · rename_i present
    rw [lines_last cut.last present]

theorem newline_not_mem_of_mem_lines (member : line ∈ lines s) : '\n' ∉ line := by
  obtain ⟨ls, tail, cut⟩ := exists_cutAt s
  rw [cut.lines_eq, List.mem_append, List.mem_map] at member
  rcases member with ⟨whole, inside, rfl⟩ | last
  · exact fun feed => cut.broken whole inside ((dropReturn_front whole).subset feed)
  · split at last
    · cases last
    · rw [List.mem_singleton.mp last]
      exact cut.last

def visible (s : List Char) : List Char := s.filter (!isBlank ·)

theorem visible_append (s t : List Char) : visible (s ++ t) = visible s ++ visible t :=
  List.filter_append s t

theorem visible_eq_nil (blank : s.all isBlank = true) : visible s = [] := by
  refine List.filter_eq_nil_iff.mpr ?_
  intro c member
  simp [List.all_eq_true.mp blank c member]

theorem visible_trimStart (s : List Char) : visible (trimStart s) = visible s := by
  induction s with
  | nil => rfl
  | cons c cs ih =>
    cases blank : isBlank c with
    | true =>
      rw [trimStart_cons_of_blank blank, ih]
      simp [visible, blank]
    | false => rw [trimStart_cons_of_not_blank blank]

theorem visible_reverse (s : List Char) : visible s.reverse = (visible s).reverse := by
  simp only [visible, List.filter_reverse]

theorem visible_trim (s : List Char) : visible (trim s) = visible s := by
  rw [trim, trimEnd_eq_reverse, visible_reverse, visible_trimStart, visible_reverse,
    List.reverse_reverse, visible_trimStart]

theorem visible_dropReturn (line : List Char) : visible (dropReturn line) = visible line := by
  have none : visible ['\r'] = [] := visible_eq_nil (by decide)
  refine apply_dropReturn ?_ line
  intro front
  rw [visible_append, none, List.append_nil]

theorem visible_flatten (pieces : List (List Char)) :
    visible pieces.flatten = pieces.flatMap visible := by
  rw [visible, List.filter_flatten, List.flatMap_def]
  rfl

theorem visible_unlines (ls : List (List Char)) : visible (unlines ls) = ls.flatMap visible := by
  have none : visible ['\n'] = [] := visible_eq_nil (by decide)
  rw [visible, unlines, List.filter_flatMap]
  congr 1
  funext line
  exact (visible_append line ['\n']).trans (by rw [none, List.append_nil])

theorem flatMap_visible_lines (s : List Char) : (lines s).flatMap visible = visible s := by
  obtain ⟨ls, tail, cut⟩ := exists_cutAt s
  rw [cut.lines_eq, cut.whole, visible_append, visible_unlines, List.flatMap_append,
    List.flatMap_map]
  simp only [visible_dropReturn]
  congr 1
  split
  · rename_i none
    rw [none]
    rfl
  · simp

end TapeMachine.Text
