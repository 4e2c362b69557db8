import TapeMachine.Proofs.Settings.ColourValue
import TapeMachine.Proofs.Text.Line
import TapeMachine.Proofs.Text.Numeral

/-
Codes of colours in ASCII texts. A code is a number sign and a pair of hexadecimal digits for each
channel. Just these are read where there is no plus sign; a plus sign may stand for the first digit
of a pair, and no other text behind a number sign is read as a colour.
-/
namespace TapeMachine.ColourReading

open Text

variable {s text value piece : List Char} {c : Char} {d v r g b : Nat} {colour : Colour}

inductive HexDigit (c : Char) : Nat → Prop
  | decimal {d : Nat} (digit : Digit c d) : HexDigit c d
  | lower {d : Nat} (small : d < 6) (code : c.toNat = 'a'.toNat + d) : HexDigit c (10 + d)
  | upper {d : Nat} (small : d < 6) (code : c.toNat = 'A'.toNat + d) : HexDigit c (10 + d)

inductive HexPair : List Char → Nat → Prop
  | digits {a b : Char} {x y : Nat} (high : HexDigit a x) (low : HexDigit b y) :
      HexPair [a, b] (16 * x + y)

inductive SignedPair : List Char → Nat → Prop
  | unsigned {piece : List Char} {v : Nat} (pair : HexPair piece v) : SignedPair piece v
  | plus {c : Char} {v : Nat} (digit : HexDigit c v) : SignedPair ['+', c] v

/-- A number sign, then a pair for red, one for green and one for blue. -/
def CodeOf (Pair : List Char → Nat → Prop) (text : List Char) (r g b : Nat) : Prop :=
  ∃ red green blue, text = '#' :: (red ++ green ++ blue) ∧ Pair red r ∧ Pair green g ∧ Pair blue b

theorem hexDigit_iff :
    HexDigit c d ↔
      d < 10 ∧ c.toNat = 48 + d ∨ 10 ≤ d ∧ d < 16 ∧ (c.toNat = 87 + d ∨ c.toNat = 55 + d) := by
  have bounds : '0'.toNat = 48 ∧ 'a'.toNat = 97 ∧ 'A'.toNat = 65 := by decide
  constructor
  · intro digit
    cases digit with
    | decimal digit =>
      have := digit.small
      have := digit.code
      omega
    | lower small code => omega
    | upper small code => omega
  · rintro (⟨small, code⟩ | ⟨ten, small, code | code⟩)
    · exact .decimal ⟨small, by omega⟩
    · have lower : HexDigit c (10 + (d - 10)) := .lower (by omega) (by omega)
      rwa [Nat.add_sub_cancel' ten] at lower
    · have upper : HexDigit c (10 + (d - 10)) := .upper (by omega) (by omega)
      rwa [Nat.add_sub_cancel' ten] at upper

theorem digitValue?_sixteen_iff : digitValue? 16 c = some d ↔ HexDigit c d := by
  have bounds : '0'.val.toNat = 48 ∧ '9'.val.toNat = 57 ∧ 'a'.val.toNat = 97 ∧
      'z'.val.toNat = 122 ∧ 'A'.val.toNat = 65 ∧ 'Z'.val.toNat = 90 := by decide
  rw [hexDigit_iff, digitValue?]
  simp only [Char.le_def, UInt32.le_iff_toNat_le, Char.toNat, bounds]
  grind

theorem channel_iff : Channel piece v ↔ SignedPair piece v := by
  constructor
  · intro channel
    cases channel with
    | pair high low =>
      exact .unsigned (.digits (digitValue?_sixteen_iff.mp high) (digitValue?_sixteen_iff.mp low))
    | plus low => exact .plus (digitValue?_sixteen_iff.mp low)
  · intro signed
    cases signed with
    | unsigned pair =>
      obtain ⟨high, low⟩ := pair
      exact .pair (digitValue?_sixteen_iff.mpr high) (digitValue?_sixteen_iff.mpr low)
    | plus digit => exact .plus (digitValue?_sixteen_iff.mpr digit)

theorem code_iff : Code text r g b ↔ CodeOf SignedPair text r g b := by
  simp only [Code, CodeOf, channel_iff]

theorem CodeOf.mono {Pair Wider : List Char → Nat → Prop}
    (wider : ∀ piece v, Pair piece v → (∀ c ∈ piece, c ∈ text) → Wider piece v)
    (code : CodeOf Pair text r g b) : CodeOf Wider text r g b := by
  obtain ⟨red, green, blue, rfl, first, second, third⟩ := code
  refine ⟨red, green, blue, rfl, wider red r first ?_, wider green g second ?_,
    wider blue b third ?_⟩ <;>
    · intro c member
      simp [member]

theorem codeOf_signedPair_iff (plain : '+' ∉ text) :
    CodeOf SignedPair text r g b ↔ CodeOf HexPair text r g b := by
  constructor
  · refine CodeOf.mono ?_
    intro piece v signed inside
    cases signed with
    | unsigned pair => exact pair
    | plus digit => exact absurd (inside '+' List.mem_cons_self) plain
  · exact CodeOf.mono fun _ _ pair _ => .unsigned pair

theorem HexPair.plus_not_mem (pair : HexPair piece v) : '+' ∉ piece := by
  have plus : '+'.toNat = 43 := by decide
  obtain ⟨high, low⟩ := pair
  rw [hexDigit_iff] at high low
  simp only [List.mem_cons, List.not_mem_nil, or_false, not_or]
  constructor <;>
    · rintro rfl
      omega

theorem CodeOf.plus_not_mem (code : CodeOf HexPair text r g b) : '+' ∉ text := by
  obtain ⟨red, green, blue, rfl, first, second, third⟩ := code
  simp [first.plus_not_mem, second.plus_not_mem, third.plus_not_mem]

theorem named?_ne_rgb (name : List Char) : Colour.named? name ≠ some (.rgb r g b) := by
  intro named
  obtain ⟨before, later, split, _⟩ := List.lookup_eq_some_iff.mp named
  have member : (String.ofList (lower name), Colour.rgb r g b) ∈ Colour.names := by simp [split]
  have plain : ∀ entry ∈ Colour.names, ∀ r g b, entry.2 ≠ .rgb r g b := by
    simp [Colour.names]
  exact plain _ member r g b rfl

theorem ofText_eq_rgb_iff :
    ofText value = .colour (.rgb r g b) ↔ CodeOf SignedPair (trim value) r g b := by
  rw [ofText_eq_colour_iff]
  constructor
  · rintro (named | ⟨_, _, _, code, same⟩)
    · exact absurd named (named?_ne_rgb _)
    · cases same
      exact code_iff.mp code
  · intro code
    exact .inr ⟨r, g, b, code_iff.mpr code, rfl⟩

theorem sliceable_of_ascii (ascii : Ascii s) (six : byteLength s = 6) : Sliceable s := by
  rw [sliceable_iff six]
  rw [ascii.byteLength_eq] at six
  match s, six with
  | [a, b, c, d, e, f], _ =>
    -- Every character is a byte, so that no pair of bytes ends inside one.
    refine ⟨[[a, b], [c, d], [e, f]], bytePairs?_eq_some_iff.mpr ⟨rfl, ?_⟩⟩
    simp only [Ascii, List.forall_mem_cons] at ascii
    simp [utf8Size_of_ascii, ascii]

theorem ne_splitCharacter_of_ascii (ascii : Ascii value) : ofText value ≠ .splitCharacter := by
  intro read
  obtain ⟨digits, sign, six, cut⟩ := ofText_eq_splitCharacter_iff.mp read
  refine cut (sliceable_of_ascii ?_ six)
  intro c member
  exact ascii c ((trim_sublist value).subset (by simp [sign, member]))

theorem unknown_of_no_code (ascii : Ascii value) (sign : (trim value).head? = some '#')
    (none : ∀ r g b, ¬ CodeOf SignedPair (trim value) r g b) : ofText value = .unknown := by
  obtain ⟨digits, sign⟩ := List.head?_eq_some_iff.mp sign
  cases read : ofText value with
  | unknown => rfl
  | splitCharacter => exact absurd read (ne_splitCharacter_of_ascii ascii)
  | colour colour =>
    rcases ofText_eq_colour_iff.mp read with named | ⟨r, g, b, code, _⟩
    · rw [sign, named?_of_sign] at named
      cases named
    · exact absurd (code_iff.mp code) (none r g b)

/-- A text is read as the colour of three channels exactly if it is a number sign and three pairs of
digits, a plus sign in place of the first digit of a pair allowed. Nothing else that begins with a
number sign is a colour, so without a plus sign only codes of six digits are. -/
theorem colour_codes_read_with_signs (value : List Char) (ascii : Ascii value) :
    (∀ r g b, ofText value = .colour (.rgb r g b) ↔ CodeOf SignedPair (trim value) r g b) ∧
    ((trim value).head? = some '#' →
      (∀ r g b, ¬ CodeOf SignedPair (trim value) r g b) → ofText value = .unknown) ∧
    ('+' ∉ value →
      (∀ r g b, ofText value = .colour (.rgb r g b) ↔ CodeOf HexPair (trim value) r g b) ∧
      ((trim value).head? = some '#' →
        (∀ r g b, ¬ CodeOf HexPair (trim value) r g b) → ofText value = .unknown)) := by
  refine ⟨fun r g b => ofText_eq_rgb_iff, unknown_of_no_code ascii, ?unsigned⟩
  case unsigned =>
    intro plain
    have plain' : '+' ∉ trim value := fun inside => plain ((trim_sublist value).subset inside)
    constructor
    · intro r g b
      rw [ofText_eq_rgb_iff, codeOf_signedPair_iff plain']
    · intro sign none
      refine unknown_of_no_code ascii sign ?_
      intro r g b
      rw [codeOf_signedPair_iff plain']
      exact none r g b

/-- Digits of both cases between white space. -/
theorem colour_code_read_in_both_cases :
    Ascii " #0aF9ff\t".toList ∧ '+' ∉ " #0aF9ff\t".toList ∧
      ofText " #0aF9ff\t".toList = .colour (.rgb 10 249 255) := by
  have ascii : Ascii " #0aF9ff\t".toList := by simp [Ascii]
  have plain : '+' ∉ " #0aF9ff\t".toList := by decide
  have pair {a b : Char} {x y : Nat} (high : digitValue? 16 a = some x)
      (low : digitValue? 16 b = some y) : HexPair [a, b] (16 * x + y) :=
    .digits (digitValue?_sixteen_iff.mp high) (digitValue?_sixteen_iff.mp low)
  have code : CodeOf HexPair (trim " #0aF9ff\t".toList) 10 249 255 :=
    ⟨['0', 'a'], ['F', '9'], ['f', 'f'], by decide, pair (x := 0) (y := 10) rfl rfl,
      pair (x := 15) (y := 9) rfl rfl, pair (x := 15) (y := 15) rfl rfl⟩
  exact ⟨ascii, plain, (((colour_codes_read_with_signs _ ascii).2.2 plain).1 10 249 255).mpr code⟩

/-- Read as a colour for its plus signs, though they are no digits. -/
theorem colour_read_from_plus_signs :
    Ascii "#+f+f+f".toList ∧ ofText "#+f+f+f".toList = .colour (.rgb 15 15 15) ∧
      ¬ CodeOf HexPair (trim "#+f+f+f".toList) 15 15 15 := by
  refine ⟨by simp [Ascii], rfl, ?_⟩
  intro code
  have plus : '+' ∈ trim "#+f+f+f".toList := by decide
  exact code.plus_not_mem plus

end TapeMachine.ColourReading
