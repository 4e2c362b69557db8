import TapeMachine.Command
import TapeMachine.Proofs.Text.Word

/-
The line that asks for a dump: a colon, the word for it, and then words of which the first two are
the numbers of the dump. A line is read as a dump exactly if neither of them is there without being
a number; the first that is not is what is wrong with the line.
-/
namespace TapeMachine.Command

open Text

variable {line word : List Char} {words : List (List Char)} {width offset n : Nat}
  {number : DumpNumber} {word? : Option (List Char)} {e : CommandError}
  {read : Except CommandError Command}

def IsNumber (word : List Char) (n : Nat) : Prop := Decimal word n ∧ n ≤ maxWord64

/-- What a number is if its word may be missing. -/
inductive Given (standard : Nat) : Option (List Char) → Nat → Prop
  | missing : Given standard none standard
  | word {word : List Char} {n : Nat} (isNumber : IsNumber word n) : Given standard (some word) n

/-- The trimmed line is a colon, the word `dump` with or without white space before it, and these
words. -/
def DumpLine (line : List Char) (words : List (List Char)) : Prop :=
  ∃ rest, trim line = ':' :: rest ∧ Words rest ("dump".toList :: words)

theorem decimal?_iff_isNumber : decimal? maxWord64 word = some n ↔ IsNumber word n :=
  decimal?_eq_some_iff

theorem decimal?_none_iff : decimal? maxWord64 word = none ↔ ∀ n, ¬ IsNumber word n := by
  simp only [Option.eq_none_iff_forall_ne_some, ne_eq, decimal?_iff_isNumber]

theorem dumpNumber_eq_ok_iff :
    dumpNumber number word? = .ok n ↔ Given number.standard word? n := by
  cases word? with
  | none =>
    rw [dumpNumber, Except.ok.injEq]
    constructor
    · rintro rfl
      exact .missing
    · rintro ⟨⟩
      rfl
  | some word =>
    rw [dumpNumber]
    constructor
    · intro read
      cases found : decimal? maxWord64 word with
      | none =>
        rw [found] at read
        cases read
      | some value =>
        rw [found] at read
        cases read
        exact .word (decimal?_iff_isNumber.mp found)
    · intro given
      cases given with
      | word isNumber => rw [decimal?_iff_isNumber.mpr isNumber]

theorem dumpNumber_eq_error_iff :
    dumpNumber number word? = .error e ↔
      ∃ word, word? = some word ∧ (∀ n, ¬ IsNumber word n) ∧ e = .notNumber number word := by
  cases word? with
  | none => simp [dumpNumber]
  | some word =>
    rw [dumpNumber]
    cases found : decimal? maxWord64 word with
    | some value =>
      have isNumber := decimal?_iff_isNumber.mp found
      simp only [reduceCtorEq, Option.some.injEq, false_iff, not_exists, not_and]
      rintro _ rfl none
      exact absurd isNumber (none value)
    | none =>
      have none := decimal?_none_iff.mp found
      simp only [Except.error.injEq, Option.some.injEq]
      constructor
      · rintro rfl
        exact ⟨word, rfl, none, rfl⟩
      · rintro ⟨_, rfl, _, rfl⟩
        rfl

theorem ofDumpWords_eq_dump_iff :
    ofDumpWords words = .ok (.dump width offset) ↔
      Given 10 words[0]? width ∧ Given 0 words[1]? offset := by
  have first : dumpNumber .width words[0]? = .ok width ↔ Given 10 words[0]? width :=
    dumpNumber_eq_ok_iff
  have second : dumpNumber .offset words[1]? = .ok offset ↔ Given 0 words[1]? offset :=
    dumpNumber_eq_ok_iff
  rw [← first, ← second, ofDumpWords]
  cases dumpNumber .width words[0]? with
  | error e => simp
  | ok w => cases dumpNumber .offset words[1]? <;> simp [Except.map]

theorem ofDumpWords_eq_error_iff :
    ofDumpWords words = .error e ↔
      dumpNumber .width words[0]? = .error e ∨
        (∃ width, dumpNumber .width words[0]? = .ok width) ∧
          dumpNumber .offset words[1]? = .error e := by
  rw [ofDumpWords]
  cases dumpNumber .width words[0]? with
  | error e => simp
  | ok w => cases dumpNumber .offset words[1]? <;> simp [Except.map]

theorem ofDumpWords_eq_width_error_iff :
    ofDumpWords words = .error (.notNumber .width word) ↔
      words[0]? = some word ∧ ∀ n, ¬ IsNumber word n := by
  rw [ofDumpWords_eq_error_iff]
  simp only [dumpNumber_eq_error_iff, CommandError.notNumber.injEq, reduceCtorEq, false_and,
    and_false, exists_false, or_false, true_and]
  constructor
  · rintro ⟨_, found, none, rfl⟩
    exact ⟨found, none⟩
  · rintro ⟨found, none⟩
    exact ⟨word, found, none, rfl⟩

theorem ofDumpWords_eq_offset_error_iff :
    ofDumpWords words = .error (.notNumber .offset word) ↔
      ∃ first width, words[0]? = some first ∧ IsNumber first width ∧ words[1]? = some word ∧
        ∀ n, ¬ IsNumber word n := by
  rw [ofDumpWords_eq_error_iff]
  simp only [dumpNumber_eq_error_iff, dumpNumber_eq_ok_iff, CommandError.notNumber.injEq,
    reduceCtorEq, false_and, and_false, exists_false, false_or, true_and]
  constructor
  · rintro ⟨⟨width, given⟩, _, found, none, rfl⟩
    cases words with
    | nil => cases found
    | cons first later =>
      cases given with
      | word isNumber => exact ⟨first, width, rfl, isNumber, found, none⟩
  · rintro ⟨first, width, here, isNumber, found, none⟩
    rw [here]
    exact ⟨⟨width, .word isNumber⟩, word, found, none, rfl⟩

def AboutDump : Except CommandError Command → Prop
  | .ok (.dump _ _) | .error (.notNumber _ _) => True
  | _ => False

theorem ofWords_eq_iff (dump : AboutDump read) :
    ofWords words = read ↔ ∃ later, words = "dump".toList :: later ∧ ofDumpWords later = read := by
  constructor
  · intro found
    unfold ofWords at found
    by_cases named : words.headD [] = "dump".toList
    · cases words with
      | nil => cases named
      | cons name later =>
        rw [List.headD_cons] at named
        subst named
        exact ⟨later, rfl, found⟩
    · simp only [named, if_false] at found
      exfalso
      repeat' split at found
      all_goals
        subst found
        exact dump
  · rintro ⟨later, rfl, found⟩
    exact found

theorem ofText?_eq_some_iff (dump : AboutDump read) :
    ofText? line = some read ↔ ∃ words, DumpLine line words ∧ ofDumpWords words = read := by
  constructor
  · intro found
    unfold ofText? at found
    split at found
    · rename_i rest colon
      obtain ⟨words, named, same⟩ := (ofWords_eq_iff dump).mp (Option.some.inj found)
      exact ⟨words, ⟨rest, colon, words_eq_iff.mp named⟩, same⟩
    · cases found
  · rintro ⟨words, ⟨rest, colon, made⟩, same⟩
    simp only [ofText?, colon, made.words_eq]
    rw [(ofWords_eq_iff dump).mpr ⟨words, rfl, same⟩]

def dumpText (width offset : Nat) : List Char :=
  (":dump " ++ toString width ++ " " ++ toString offset).toList

theorem dumpText_eq (width offset : Nat) :
    dumpText width offset =
      ':' :: ("dump".toList ++ (' ' :: (toString width).toList) ++ [' ']) ++
        (toString offset).toList := by
  simp [dumpText]

theorem trim_dumpText (width offset : Nat) :
    trim (dumpText width offset) = dumpText width offset := by
  have colon : isBlank ':' = false := by decide
  rw [trim, dumpText_eq, List.cons_append, trimStart_cons_of_not_blank colon, ← List.cons_append,
    trimEnd_append_word (isWord_toString offset)]

theorem dumpLine_dumpText (width offset : Nat) :
    DumpLine (dumpText width offset) [(toString width).toList, (toString offset).toList] := by
  have space : [' '].all isBlank = true := by decide
  have ended (s : List Char) : endsWord ([' '] ++ s) = true := by
    have blank : isBlank ' ' = true := by decide
    exact blank
  have dump : IsWord "dump".toList := by
    have visible : "dump".toList.all (!isBlank ·) = true := by decide
    exact ⟨by decide, by simpa using visible⟩
  have second := Words.cons space (isWord_toString offset) rfl (@Words.nil [] rfl)
  have both := Words.cons space (isWord_toString width) (ended _) second
  have whole := @Words.cons [] _ _ _ rfl dump (ended _) both
  refine ⟨_, ?_, whole⟩
  rw [trim_dumpText, dumpText_eq]
  simp

/-- A line is read as a dump exactly if the word `dump` behind its colon is followed by two numbers,
by one, which is the width, or by none, whatever comes after them. A first or a second word that is
no number is reported, the first before the second. Numbers are read back as they are written. -/
theorem dump_lines_read_exactly (line : List Char) :
    (∀ width offset, ofText? line = some (.ok (.dump width offset)) ↔
      ∃ words, DumpLine line words ∧ Given 10 words[0]? width ∧ Given 0 words[1]? offset) ∧
    (∀ word, ofText? line = some (.error (.notNumber .width word)) ↔
      ∃ later, DumpLine line (word :: later) ∧ ∀ n, ¬ IsNumber word n) ∧
    (∀ word, ofText? line = some (.error (.notNumber .offset word)) ↔
      ∃ first width later, DumpLine line (first :: word :: later) ∧ IsNumber first width ∧
        ∀ n, ¬ IsNumber word n) ∧
    (∀ word, (CommandError.notNumber .width word).message =
      ":dump width must be a number, got '" ++ String.ofList word ++ "'") ∧
    (∀ word, (CommandError.notNumber .offset word).message =
      ":dump offset must be a number, got '" ++ String.ofList word ++ "'") ∧
    ∀ width offset, width ≤ maxWord64 → offset ≤ maxWord64 →
      ofText? (dumpText width offset) = some (.ok (.dump width offset)) := by
  refine ⟨?read, ?first, ?second, fun _ => rfl, fun _ => rfl, ?written⟩
  case read =>
    intro width offset
    have dump : AboutDump (.ok (.dump width offset)) := trivial
    simp only [ofText?_eq_some_iff dump, ofDumpWords_eq_dump_iff]
  case first =>
    intro word
    have dump : AboutDump (.error (.notNumber .width word)) := trivial
    simp only [ofText?_eq_some_iff dump, ofDumpWords_eq_width_error_iff]
    constructor
    · rintro ⟨words, dump, here, none⟩
      obtain ⟨later, rfl⟩ := List.head?_eq_some_iff.mp (List.head?_eq_getElem? ▸ here)
      exact ⟨later, dump, none⟩
    · rintro ⟨later, dump, none⟩
      exact ⟨word :: later, dump, rfl, none⟩
  case second =>
    intro word
    have dump : AboutDump (.error (.notNumber .offset word)) := trivial
    simp only [ofText?_eq_some_iff dump, ofDumpWords_eq_offset_error_iff]
    constructor
    · rintro ⟨words, dump, first, width, here, isNumber, next, none⟩
      obtain ⟨others, rfl⟩ := List.head?_eq_some_iff.mp (List.head?_eq_getElem? ▸ here)
      obtain ⟨later, rfl⟩ := List.head?_eq_some_iff.mp (List.head?_eq_getElem? ▸ next)
      exact ⟨first, width, later, dump, isNumber, none⟩
    · rintro ⟨first, width, later, dump, isNumber, none⟩
      exact ⟨first :: word :: later, dump, first, width, rfl, isNumber, rfl, none⟩
  case written =>
    intro width offset small small'
    have dump : AboutDump (.ok (.dump width offset)) := trivial
    rw [ofText?_eq_some_iff dump]
    refine ⟨_, dumpLine_dumpText width offset, ofDumpWords_eq_dump_iff.mpr ⟨?_, ?_⟩⟩
    · exact .word ⟨decimal_toString width, small⟩
    · exact .word ⟨decimal_toString offset, small'⟩

/-- The last number of 64 bits, and the number after it. -/
theorem dump_line_read_at_last_number :
    (18446744073709551615 ≤ maxWord64 ∧ 0 ≤ maxWord64) ∧
      ofText? ":dump 18446744073709551615 0".toList =
        some (.ok (.dump 18446744073709551615 0)) ∧
      ofText? ":dump 18446744073709551616 x".toList =
        some (.error (.notNumber .width "18446744073709551616".toList)) := by
  have written : dumpText 18446744073709551615 0 = ":dump 18446744073709551615 0".toList := by
    decide
  refine ⟨by decide, ?_, rfl⟩
  rw [← written]
  exact (dump_lines_read_exactly []).2.2.2.2.2 _ _ (by decide) (by decide)

example : ofText? "\u3000: dump +0020\t7x 9".toList =
    some (.error (.notNumber .offset "7x".toList)) := rfl

end TapeMachine.Command
