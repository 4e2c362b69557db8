import TapeMachine.Proofs.Text.Line
import TapeMachine.Proofs.Text.Numeral

/-
Words of a text, told by how a text is made of them: white space that may be missing, a word, then
nothing or white space before whatever follows. A text is made of just one list of words, the one
that is read from it. A number as it is written is a word.
-/
namespace TapeMachine.Text

variable {s gap word rest digits : List Char} {ws : List (List Char)} {c : Char} {d n : Nat}

def endsWord (rest : List Char) : Bool := rest.head?.all isBlank

structure IsWord (word : List Char) : Prop where
  present : word ≠ []
  visible : ∀ c ∈ word, isBlank c = false

/-- Texts that have these words and else only white space. -/
inductive Words : List Char → List (List Char) → Prop
  | nil {gap : List Char} (blank : gap.all isBlank = true) : Words gap []
  | cons {gap word rest : List Char} {ws : List (List Char)} (blank : gap.all isBlank = true)
      (isWord : IsWord word) (ended : endsWord rest = true) (later : Words rest ws) :
      Words (gap ++ (word ++ rest)) (word :: ws)

theorem words_cons_of_blank (blank : isBlank c = true) (s : List Char) :
    words (c :: s) = words s := by
  rw [words, if_pos blank]

theorem words_cons_of_ended (visible : isBlank c = false) (ended : endsWord s = true) :
    words (c :: s) = [c] :: words s := by
  rw [endsWord] at ended
  rw [words, if_neg (by simp [visible]), if_pos ended]

theorem words_cons_of_open (visible : isBlank c = false) (more : endsWord s = false) :
    words (c :: s) = (words s).modifyHead (c :: ·) := by
  rw [endsWord, ← Bool.not_eq_true] at more
  rw [words, if_neg (by simp [visible]), if_neg more]

theorem words_gap (blank : gap.all isBlank = true) (s : List Char) :
    words (gap ++ s) = words s := by
  induction gap with
  | nil => rfl
  | cons c cs ih =>
    rw [List.all_cons, Bool.and_eq_true] at blank
    rw [List.cons_append, words_cons_of_blank blank.1, ih blank.2]

theorem words_word (isWord : IsWord word) (ended : endsWord rest = true) :
    words (word ++ rest) = word :: words rest := by
  obtain ⟨present, visible⟩ := isWord
  induction word with
  | nil => exact absurd rfl present
  | cons c cs ih =>
    rw [List.forall_mem_cons] at visible
    obtain ⟨first, others⟩ := visible
    by_cases last : cs = []
    · subst last
      exact words_cons_of_ended first ended
    · have more : endsWord (cs ++ rest) = false := by
        obtain ⟨d, ds, rfl⟩ := List.exists_cons_of_ne_nil last
        exact others d List.mem_cons_self
      rw [List.cons_append, words_cons_of_open first more, ih last others]
      rfl

theorem Words.words_eq (made : Words s ws) : words s = ws := by
  induction made with
  | nil blank => exact words_eq_nil_of_all_blank blank
  | cons blank isWord ended later ih => rw [words_gap blank, words_word isWord ended, ih]

theorem Words.cons_of_blank (blank : isBlank c = true) (made : Words s ws) : Words (c :: s) ws := by
  have wider {gap : List Char} (others : gap.all isBlank = true) :
      (c :: gap).all isBlank = true := by
    rw [List.all_cons, blank, others]
    rfl
  cases made with
  | nil others => exact .nil (wider others)
  | cons others isWord ended later => exact .cons (wider others) isWord ended later

theorem isWord_singleton (visible : isBlank c = false) : IsWord [c] where
  present := List.cons_ne_nil c []
  visible := by simpa using visible

theorem IsWord.cons (visible : isBlank c = false) (isWord : IsWord word) : IsWord (c :: word) where
  present := List.cons_ne_nil c word
  visible := List.forall_mem_cons.mpr ⟨visible, isWord.visible⟩

theorem Words.cons_of_open (visible : isBlank c = false) (more : endsWord s = false)
    (made : Words s ws) : Words (c :: s) (ws.modifyHead (c :: ·)) := by
  cases made with
  | nil blank =>
    cases s with
    | nil => cases more
    | cons d ds =>
      rw [List.all_cons, Bool.and_eq_true] at blank
      rw [endsWord, List.head?_cons, Option.all_some, blank.1] at more
      cases more
  | @cons gap word rest ws blank isWord ended later =>
    cases gap with
    | nil => exact @Words.cons [] _ _ _ rfl (isWord.cons visible) ended later
    | cons d ds =>
      rw [List.all_cons, Bool.and_eq_true] at blank
      rw [List.cons_append, endsWord, List.head?_cons, Option.all_some, blank.1] at more
      cases more

theorem words_words (s : List Char) : Words s (words s) := by
  induction s with
  | nil => exact .nil rfl
  | cons c cs ih =>
    cases blank : isBlank c with
    | true =>
      rw [words_cons_of_blank blank]
      exact ih.cons_of_blank blank
    | false =>
      cases ended : endsWord cs with
      | true =>
        rw [words_cons_of_ended blank ended]
        exact @Words.cons [] _ _ _ rfl (isWord_singleton blank) ended ih
      | false =>
        rw [words_cons_of_open blank ended]
        exact ih.cons_of_open blank ended

theorem words_eq_iff : words s = ws ↔ Words s ws := by
  constructor
  · rintro rfl
    exact words_words s
  · exact Words.words_eq

theorem isBlank_of_digit (digit : Digit c d) : isBlank c = false := by
  have small := digit.small
  have code : c.toNat = 48 + d := digit.code
  rw [Bool.eq_false_iff]
  intro blank
  simp only [isBlank, blankRanges, List.any_cons, List.any_nil, Bool.or_false, Bool.or_eq_true,
    Bool.and_eq_true, decide_eq_true_eq] at blank
  omega

theorem isBlank_of_mem_digits (denoted : Digits digits n) :
    ∀ c ∈ digits, isBlank c = false := by
  induction denoted with
  | nil => simp
  | snoc earlier digit ih =>
    intro c member
    rcases List.mem_append.mp member with before | last
    · exact ih c before
    · rw [List.mem_singleton.mp last]
      exact isBlank_of_digit digit

theorem isWord_toString (n : Nat) : IsWord (toString n).toList where
  present := by
    rw [toList_toString]
    exact Nat.toDigits_ne_nil
  visible := by
    rw [toList_toString]
    exact isBlank_of_mem_digits (digits_toDigits n)

theorem trimEnd_append_word (isWord : IsWord word) (s : List Char) :
    trimEnd (s ++ word) = s ++ word := by
  obtain ⟨front, last, rfl⟩ := List.eq_nil_or_concat word |>.resolve_left isWord.present
  have visible : isBlank last = false := isWord.visible last (by simp)
  rw [trimEnd_eq_reverse, List.concat_eq_append, List.reverse_append, List.reverse_append,
    List.reverse_singleton, List.singleton_append, List.cons_append,
    trimStart_cons_of_not_blank visible]
  simp

end TapeMachine.Text
