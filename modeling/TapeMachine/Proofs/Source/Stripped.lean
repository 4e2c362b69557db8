import TapeMachine.Execution
import TapeMachine.Proofs.Source.Pairing
import TapeMachine.Proofs.Source.Sanitize

/-
Stripping text that is stripped already. Such text has no white space, and if it is accepted no
marker of a block comment either, so stripping it again can only cut it off at two slashes that came
together when what stood between them was removed. Accepted code is a fixed point exactly if it has
no two adjacent slashes, and what is left after the cut is a fixed point at any rate.
-/
namespace TapeMachine.Source

variable {s source code : List Char}

theorem pair_infix_cons_iff {a b c : Char} {cs : List Char} :
    [a, b] <:+: c :: cs ↔ (c = a ∧ cs.head? = some b) ∨ [a, b] <:+: cs := by
  rw [List.infix_cons_iff, List.cons_prefix_cons, eq_comm (a := a)]
  cases cs with
  | nil => simp
  | cons d ds => simp [List.cons_prefix_cons, eq_comm (a := b)]

theorem dropSpaces_eq_self (compact : ∀ c ∈ s, isSpace c = false) : dropSpaces s = s := by
  refine List.filter_eq_self.mpr fun c member => ?_
  simp [compact c member]

theorem afterBlock?_suffix {rest : List Char} (found : afterBlock? s = some rest) : rest <:+ s := by
  fun_induction afterBlock? s with
  | case1 => cases found
  | case2 cs =>
    cases found
    exact ⟨['*', '/'], rfl⟩
  | case3 c cs _ ih => exact (ih found).trans (List.suffix_cons c cs)

theorem dropBlockComments_sublist (s : List Char) : (dropBlockComments s).Sublist s := by
  fun_induction dropBlockComments s with
  | case1 => exact List.Sublist.refl _
  | case2 cs rest found shorter ih =>
    exact ih.trans ((afterBlock?_suffix found).sublist.trans (by simp))
  | case3 cs unended => exact List.Sublist.refl _
  | case4 c cs plain ih => exact ih.cons_cons c

theorem dropBlockComments_eq_self (plain : ¬ ['/', '*'] <:+: s) : dropBlockComments s = s := by
  induction s with
  | nil => rw [dropBlockComments]
  | cons c cs ih =>
    rw [pair_infix_cons_iff, not_or] at plain
    rw [dropBlockComments_cons plain.1, ih plain.2]

theorem isSpace_of_mem_strip {c : Char} (member : c ∈ strip source) : isSpace c = false := by
  have kept := (dropBlockComments_sublist _).subset member
  simpa using (List.mem_filter.mp kept).2

theorem dropLineComments_inside (oneLine : '\n' ∉ s) : dropLineComments true s = [] := by
  induction s with
  | nil => rfl
  | cons c cs ih =>
    simp only [List.mem_cons, not_or] at oneLine
    simp only [dropLineComments, Ne.symm oneLine.1, ↓reduceIte]
    exact ih oneLine.2

theorem dropLineComments_cons {c : Char} {cs : List Char} (oneLine : '\n' ∉ cs) :
    dropLineComments false (c :: cs) =
      if c = '/' ∧ cs.head? = some '/' then [] else c :: dropLineComments false cs := by
  rw [dropLineComments, dropLineComments_inside oneLine]

theorem dropLineComments_front (oneLine : '\n' ∉ s) : dropLineComments false s <+: s := by
  induction s with
  | nil => exact List.prefix_rfl
  | cons c cs ih =>
    have inside := mt (List.mem_cons_of_mem c) oneLine
    rw [dropLineComments_cons inside]
    split
    · exact List.nil_prefix
    · exact List.cons_prefix_cons.mpr ⟨rfl, ih inside⟩

theorem dropLineComments_eq_self (plain : ¬ ['/', '/'] <:+: s) : dropLineComments false s = s := by
  induction s with
  | nil => rfl
  | cons c cs ih =>
    rw [pair_infix_cons_iff, not_or] at plain
    simp only [dropLineComments, plain.1, ↓reduceIte, ih plain.2]

theorem no_slashes_dropLineComments (oneLine : '\n' ∉ s) :
    ¬ ['/', '/'] <:+: dropLineComments false s := by
  induction s with
  | nil => simp [dropLineComments]
  | cons c cs ih =>
    have inside := mt (List.mem_cons_of_mem c) oneLine
    rw [dropLineComments_cons inside]
    split
    · simp
    · rename_i plain
      rw [pair_infix_cons_iff, not_or]
      refine ⟨?_, ih inside⟩
      rintro ⟨slash, next⟩
      obtain ⟨rest, whole⟩ := dropLineComments_front inside
      refine plain ⟨slash, ?_⟩
      rw [← whole, List.head?_append, next]
      rfl

theorem startsWithMarker_cons_iff {c : Char} {cs : List Char} :
    startsWithMarker (c :: cs) = true ↔
      (c = '/' ∧ cs.head? = some '*') ∨ (c = '*' ∧ cs.head? = some '/') := by
  cases cs with
  | nil => simp [startsWithMarker]
  | cons d ds =>
    unfold startsWithMarker
    split <;> simp_all

theorem marker?_eq_none_iff :
    marker? s = none ↔ ¬ ['/', '*'] <:+: s ∧ ¬ ['*', '/'] <:+: s := by
  induction s with
  | nil => simp [marker?]
  | cons c cs ih =>
    rw [pair_infix_cons_iff, pair_infix_cons_iff, marker?]
    split
    · rename_i starts
      rcases startsWithMarker_cons_iff.mp starts with first | first <;> simp [first]
    · rename_i plain
      rw [startsWithMarker_cons_iff, not_or] at plain
      simp only [Option.map_eq_none_iff, ih, plain.1, plain.2, false_or]

theorem strip_of_compact (compact : ∀ c ∈ s, isSpace c = false) (plain : ¬ ['/', '*'] <:+: s) :
    strip s = dropLineComments false s := by
  have oneLine : '\n' ∉ s := by
    intro member
    cases compact _ member
  have front := dropLineComments_front oneLine
  unfold strip
  rw [dropSpaces_eq_self fun c member => compact c (front.subset member)]
  exact dropBlockComments_eq_self fun inside => plain (inside.trans front.isInfix)

theorem strip_eq_self (compact : ∀ c ∈ s, isSpace c = false) (blocks : ¬ ['/', '*'] <:+: s)
    (lines : ¬ ['/', '/'] <:+: s) : strip s = s :=
  (strip_of_compact compact blocks).trans (dropLineComments_eq_self lines)

def isPlain (c : Char) : Bool := !isSpace c && c ≠ '/' && c ≠ '*'

theorem isSpace_of_isPlain {c : Char} (plain : isPlain c = true) : isSpace c = false := by
  simp only [isPlain, Bool.and_eq_true, Bool.not_eq_true'] at plain
  exact plain.1.1

theorem no_pair_of_absent {a b : Char} (absent : a ∉ s) : ¬ [a, b] <:+: s :=
  fun inside => absent (inside.subset List.mem_cons_self)

theorem sanitize_plain (plain : ∀ c ∈ code, isPlain c = true)
    (balanced : code.count '[' = code.count ']') : sanitize code = .ok code := by
  have compact : ∀ c ∈ code, isSpace c = false :=
    fun c member => isSpace_of_isPlain (plain c member)
  have slash : '/' ∉ code := by
    intro member
    cases plain _ member
  have star : '*' ∉ code := by
    intro member
    cases plain _ member
  refine sanitize_eq_ok_iff.mpr ⟨?_, defect?_eq_none_iff.mpr ⟨?_, ?_⟩⟩
  · exact strip_eq_self compact (no_pair_of_absent slash) (no_pair_of_absent slash)
  · exact marker?_eq_none_iff.mpr ⟨no_pair_of_absent slash, no_pair_of_absent star⟩
  · exact Pairing.scan_balanced_iff.mpr balanced

theorem strip_of_accepted (accepted : sanitize source = .ok code) :
    strip code = dropLineComments false code := by
  obtain ⟨rfl, sound⟩ := sanitize_eq_ok_iff.mp accepted
  have unmarked := marker?_eq_none_iff.mp (defect?_eq_none_iff.mp sound).1
  exact strip_of_compact (fun c member => isSpace_of_mem_strip member) unmarked.1

theorem one_line_of_accepted (accepted : sanitize source = .ok code) : '\n' ∉ code := by
  obtain ⟨rfl, _⟩ := sanitize_eq_ok_iff.mp accepted
  intro member
  cases isSpace_of_mem_strip member

/-- Accepted code is a fixed point exactly if it has no two adjacent slashes, and then it runs as
its source does. Sanitizing twice yields a fixed point at any rate, unless the code is rejected. -/
theorem sanitize_fixed_iff_no_slashes (accepted : sanitize source = .ok code) :
    (sanitize code = .ok code ↔ ¬ ['/', '/'] <:+: code) ∧
    (¬ ['/', '/'] <:+: code → ∀ mode tape input,
      execute mode code tape input = execute mode source tape input) ∧
    ∀ again, sanitize code = .ok again → again <+: code ∧ sanitize again = .ok again := by
  have sound := (sanitize_eq_ok_iff.mp accepted).2
  have oneLine := one_line_of_accepted accepted
  have restripped := strip_of_accepted accepted
  have fixed : sanitize code = .ok code ↔ ¬ ['/', '/'] <:+: code := by
    rw [sanitize_eq_ok_iff, restripped]
    constructor
    · intro same
      rw [← same.1]
      exact no_slashes_dropLineComments oneLine
    · intro plain
      exact ⟨dropLineComments_eq_self plain, sound⟩
  refine ⟨fixed, ?_, ?_⟩
  · intro plain mode tape input
    simp only [execute, accepted, fixed.mpr plain]
  · intro again twice
    obtain ⟨same, soundAgain⟩ := sanitize_eq_ok_iff.mp twice
    rw [restripped] at same
    subst same
    refine ⟨dropLineComments_front oneLine, sanitize_eq_ok_iff.mpr ⟨?_, soundAgain⟩⟩
    rw [strip_of_accepted twice]
    exact dropLineComments_eq_self (no_slashes_dropLineComments oneLine)

/-- A comment between the parts of a program leaves its code a fixed point. -/
theorem sanitize_fixed_around_comment :
    sanitize ['+', '/', '*', '[', '*', '/', ' ', '-'] = .ok ['+', '-'] ∧
      sanitize ['+', '-'] = .ok ['+', '-'] := by
  have bare : dropBlockComments ['+', '/', '*', '[', '*', '/', '-'] = ['+', '-'] := by
    rw [dropBlockComments_cons (by simp), dropBlockComments_block rfl]
    exact congrArg ('+' :: ·) (dropBlockComments_eq_self (by simp [pair_infix_cons_iff]))
  have accepted : sanitize ['+', '/', '*', '[', '*', '/', ' ', '-'] = .ok ['+', '-'] :=
    sanitize_eq_ok_iff.mpr ⟨bare, rfl⟩
  have plain : ¬ ['/', '/'] <:+: ['+', '-'] := by simp [pair_infix_cons_iff]
  exact ⟨accepted, (sanitize_fixed_iff_no_slashes accepted).1.mpr plain⟩

/-- White space keeps two slashes apart that come together without it: the code has an invalid
character, and nothing to carry out once it is sanitized again. -/
theorem sanitize_not_fixed_between_slashes :
    sanitize ['/', ' ', '/', '+'] = .ok ['/', '/', '+'] ∧
      sanitize ['/', '/', '+'] ≠ .ok ['/', '/', '+'] ∧
      execute { fuel := 1 } ['/', '/', '+'] (.blank ⟨1, 256⟩) (.queue []) ≠
        execute { fuel := 1 } ['/', ' ', '/', '+'] (.blank ⟨1, 256⟩) (.queue []) := by
  have blocks : ¬ ['/', '*'] <:+: ['/', '/', '+'] := by simp [pair_infix_cons_iff]
  have compact : ∀ c ∈ ['/', '/', '+'], isSpace c = false := by simp [isSpace]
  have once : sanitize ['/', ' ', '/', '+'] = .ok ['/', '/', '+'] :=
    sanitize_eq_ok_iff.mpr ⟨dropBlockComments_eq_self blocks, rfl⟩
  have twice : sanitize ['/', '/', '+'] = .ok [] :=
    sanitize_eq_ok_iff.mpr ⟨strip_of_compact compact blocks, rfl⟩
  have faults : execute { fuel := 1 } ['/', ' ', '/', '+'] (.blank ⟨1, 256⟩) (.queue []) =
      some ⟨.error (.located 1 (.invalidCharacter '/')), .blank ⟨1, 256⟩, .queue [], #[]⟩ := by
    simp only [execute, once]
    rfl
  have ends : execute { fuel := 1 } ['/', '/', '+'] (.blank ⟨1, 256⟩) (.queue []) =
      some ⟨.ok ⟨0, 0⟩, .blank ⟨1, 256⟩, .queue [], #[]⟩ := by
    simp only [execute, twice]
    rfl
  refine ⟨once, ?_, ?_⟩
  · rw [twice]
    intro same
    cases same
  · rw [faults, ends]
    intro same
    cases same

end TapeMachine.Source
