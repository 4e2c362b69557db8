import TapeMachine.Text.Numeral

/-
What a decimal numeral denotes, where each further digit puts those before it one place up, and that
reading a numeral finds just that: an optional plus sign, then ASCII digits and at least one of
them, up to the bound. A number as it is written is a numeral of it.
-/
namespace TapeMachine.Text

variable {s digits : List Char} {c : Char} {n d bound : Nat}

structure Digit (c : Char) (d : Nat) : Prop where
  small : d < 10
  code : c.toNat = '0'.toNat + d

inductive Digits : List Char → Nat → Prop
  | nil : Digits [] 0
  | snoc {front : List Char} {c : Char} {n d : Nat} (earlier : Digits front n)
      (digit : Digit c d) : Digits (front ++ [c]) (n * 10 + d)

inductive Decimal : List Char → Nat → Prop
  | bare {digits : List Char} {n : Nat} (present : digits ≠ []) (denoted : Digits digits n) :
      Decimal digits n
  | signed {digits : List Char} {n : Nat} (present : digits ≠ []) (denoted : Digits digits n) :
      Decimal ('+' :: digits) n

theorem digitValue?_ten_iff : digitValue? 10 c = some d ↔ Digit c d := by
  have bounds : '0'.val.toNat = 48 ∧ '9'.val.toNat = 57 ∧ 'a'.val.toNat = 97 ∧
      'z'.val.toNat = 122 ∧ 'A'.val.toNat = 65 ∧ 'Z'.val.toNat = 90 := by decide
  unfold digitValue?
  simp only [Char.le_def, UInt32.le_iff_toNat_le, bounds]
  constructor
  · intro read
    constructor <;> grind [Char.toNat]
  · rintro ⟨small, code⟩
    grind [Char.toNat]

def addDigit (total : Nat) (c : Char) : Option Nat := (digitValue? 10 c).map (total * 10 + ·)

theorem Digits.foldlM {front : List Char} {total : Nat} (before : Digits front total)
    (read : digits.foldlM addDigit total = some n) : Digits (front ++ digits) n := by
  induction digits generalizing front total with
  | nil =>
    cases read
    rwa [List.append_nil]
  | cons c rest ih =>
    rw [List.foldlM_cons, Option.bind_eq_bind, Option.bind_eq_some_iff] at read
    obtain ⟨_, here, later⟩ := read
    obtain ⟨d, value, rfl⟩ := Option.map_eq_some_iff.mp here
    have whole := ih (before.snoc (digitValue?_ten_iff.mp value)) later
    rwa [List.append_assoc] at whole

theorem foldlM_digits_iff : digits.foldlM addDigit 0 = some n ↔ Digits digits n := by
  constructor
  · intro read
    exact Digits.nil.foldlM read
  · intro denoted
    induction denoted with
    | nil => rfl
    | snoc earlier digit ih =>
      rw [List.foldlM_append, ih]
      simp [addDigit, digitValue?_ten_iff.mpr digit]

theorem digitsValue?_ten_iff : digitsValue? 10 digits = some n ↔ digits ≠ [] ∧ Digits digits n := by
  rw [← foldlM_digits_iff]
  unfold digitsValue?
  cases digits with
  | nil => simp
  | cons c rest =>
    rw [List.isEmpty_cons, if_neg Bool.false_ne_true]
    exact (and_iff_right (List.cons_ne_nil c rest)).symm

theorem digitsValue?_unsigned_iff : digitsValue? 10 (unsigned s) = some n ↔ Decimal s n := by
  constructor
  · intro read
    unfold unsigned at read
    split at read
    · obtain ⟨present, denoted⟩ := digitsValue?_ten_iff.mp read
      exact .signed present denoted
    · obtain ⟨present, denoted⟩ := digitsValue?_ten_iff.mp read
      exact .bare present denoted
  · intro denoted
    cases denoted with
    | signed present denoted => exact digitsValue?_ten_iff.mpr ⟨present, denoted⟩
    | bare present denoted =>
      have plain : unsigned s = s := by
        unfold unsigned
        split
        · -- A plus sign is no digit.
          cases foldlM_digits_iff.mpr denoted
        · rfl
      rw [plain]
      exact digitsValue?_ten_iff.mpr ⟨present, denoted⟩

theorem decimal?_eq_some_iff : decimal? bound s = some n ↔ Decimal s n ∧ n ≤ bound := by
  simp only [decimal?, numeral?, Option.filter_eq_some_iff, digitsValue?_unsigned_iff,
    decide_eq_true_eq]

theorem digit_digitChar (small : d < 10) : Digit (Nat.digitChar d) d :=
  ⟨small, Nat.toNat_digitChar_of_lt_ten small⟩

theorem digits_toDigits (n : Nat) : Digits (Nat.toDigits 10 n) n := by
  induction n using Nat.strongRecOn with
  | ind n ih =>
    by_cases small : n < 10
    · rw [Nat.toDigits_of_lt_base small]
      have single := Digits.nil.snoc (digit_digitChar small)
      rwa [Nat.zero_mul, Nat.zero_add] at single
    · have earlier := ih (n / 10) (by omega)
      have last : Digit (Nat.digitChar (n % 10)) (n % 10) := digit_digitChar (by omega)
      have whole := earlier.snoc last
      rw [Nat.toDigits_of_base_le (by decide) (by omega)]
      rwa [Nat.div_add_mod' n 10] at whole

theorem toList_toString (n : Nat) : (toString n).toList = Nat.toDigits 10 n := by
  rw [Nat.toString_eq_repr, Nat.toList_repr]

theorem not_mem_toDigits (apart : c.isDigit = false) : c ∉ Nat.toDigits 10 n := by
  intro member
  rw [Nat.isDigit_of_mem_toDigits (by decide) (by decide) member] at apart
  cases apart

theorem decimal_toString (n : Nat) : Decimal (toString n).toList n := by
  rw [toList_toString]
  exact .bare Nat.toDigits_ne_nil (digits_toDigits n)

end TapeMachine.Text
