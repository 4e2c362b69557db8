import TapeMachine.Colour
import TapeMachine.Proofs.Text.Slice

/-
What a colour of the settings file may be. Behind a number sign six bytes are read in three pieces
of two bytes, which fails exactly if one of them would end inside a character. A value is read as a
colour exactly if it is a name or has for each channel two hexadecimal digits, where a plus sign may
stand for the first one.
-/
namespace TapeMachine.ColourReading

open Text

variable {s digits value : List Char} {pairs : List (List Char)} {colour : Colour}

theorem eq_of_two_bytes (two : byteLength s = 2) :
    (∃ a, s = [a] ∧ a.utf8Size = 2) ∨ ∃ a b, s = [a, b] ∧ a.utf8Size = 1 ∧ b.utf8Size = 1 := by
  rcases s with _ | ⟨a, _ | ⟨b, rest⟩⟩
  · cases two
  · exact .inl ⟨a, rfl, by simpa using two⟩
  · have first := a.utf8Size_pos
    have second := b.utf8Size_pos
    simp only [byteLength_cons] at two
    have none : byteLength rest = 0 := by omega
    rw [byteLength_eq_zero_iff] at none
    subst none
    exact .inr ⟨a, b, rfl, by omega, by omega⟩

theorem bytePairs?_wide {a : Char} (wide : a.utf8Size = 2) (s : List Char) :
    bytePairs? (a :: s) = (bytePairs? s).map ([a] :: ·) := by
  cases s <;> simp [bytePairs?, wide]

theorem bytePairs?_narrow {a b : Char} (first : a.utf8Size = 1) (second : b.utf8Size = 1)
    (s : List Char) : bytePairs? (a :: b :: s) = (bytePairs? s).map ([a, b] :: ·) := by
  simp [bytePairs?, first, second]

theorem bytePairs?_eq_some_iff :
    bytePairs? s = some pairs ↔ s = pairs.flatten ∧ ∀ p ∈ pairs, byteLength p = 2 := by
  constructor
  · intro cut
    fun_induction bytePairs? s generalizing pairs with
    | case1 => simp_all
    | case2 a wide =>
      cases cut
      simp [wide]
    | case3 a narrow => cases cut
    | case4 a b rest wide ih =>
      obtain ⟨later, found, rfl⟩ := Option.map_eq_some_iff.mp cut
      obtain ⟨joined, even⟩ := ih found
      exact ⟨by simp [joined], by simpa [wide] using even⟩
    | case5 a b rest _ narrow ih =>
      obtain ⟨later, found, rfl⟩ := Option.map_eq_some_iff.mp cut
      obtain ⟨joined, even⟩ := ih found
      exact ⟨by simp [joined], by simpa [narrow] using even⟩
    | case6 a b rest _ _ => cases cut
  · rintro ⟨rfl, even⟩
    induction pairs with
    | nil => rfl
    | cons p ps ih =>
      have later := ih fun q member => even q (List.mem_cons_of_mem p member)
      rcases eq_of_two_bytes (even p List.mem_cons_self) with
        ⟨a, rfl, wide⟩ | ⟨a, b, rfl, first, second⟩
      · simp [bytePairs?_wide wide, later]
      · simp [bytePairs?_narrow first second, later]

theorem byteLength_flatten (even : ∀ p ∈ pairs, byteLength p = 2) :
    byteLength pairs.flatten = 2 * pairs.length := by
  induction pairs with
  | nil => rfl
  | cons p ps ih =>
    have := ih fun q member => even q (List.mem_cons_of_mem p member)
    have := even p List.mem_cons_self
    simp only [List.flatten_cons, byteLength_append, List.length_cons]
    omega

theorem three_pairs (six : byteLength digits = 6) (cut : bytePairs? digits = some pairs) :
    ∃ r g b, pairs = [r, g, b] ∧ digits = r ++ g ++ b ∧
      byteLength r = 2 ∧ byteLength g = 2 ∧ byteLength b = 2 := by
  obtain ⟨rfl, even⟩ := bytePairs?_eq_some_iff.mp cut
  rw [byteLength_flatten even] at six
  match pairs, (show pairs.length = 3 by omega) with
  | [r, g, b], _ =>
    exact ⟨r, g, b, rfl, by simp, even r (by simp), even g (by simp), even b (by simp)⟩

/-- The pieces that the digits of a colour are read in are there. -/
def Sliceable (digits : List Char) : Prop :=
  ∃ r g b, Slice digits 0 2 r ∧ Slice digits 2 4 g ∧ Slice digits 4 6 b

theorem sliceable_iff (six : byteLength digits = 6) :
    Sliceable digits ↔ ∃ pairs, bytePairs? digits = some pairs := by
  constructor
  · rintro ⟨r, g, b, red, green, blue⟩
    have whole := (red.append green).append blue
    rw [← six] at whole
    have joined := (slice_whole digits).unique whole
    have first := red.byteLength_eq
    have second := green.byteLength_eq
    have third := blue.byteLength_eq
    refine ⟨[r, g, b], bytePairs?_eq_some_iff.mpr ⟨by simpa using joined, ?_⟩⟩
    simp only [List.mem_cons, List.not_mem_nil, or_false, forall_eq_or_imp, forall_eq]
    omega
  · rintro ⟨pairs, cut⟩
    obtain ⟨r, g, b, rfl, rfl, red, green, blue⟩ := three_pairs six cut
    refine ⟨r, g, b, ⟨[], g ++ b, ?_⟩, ⟨r, b, ?_⟩, ⟨r ++ g, [], ?_⟩⟩ <;>
      simp [red, green, blue]

theorem ofChannels_ne_splitCharacter (pairs : List (List Char)) :
    ofChannels pairs ≠ .splitCharacter := by
  unfold ofChannels
  grind

theorem ofHex_eq_splitCharacter_iff :
    ofHex digits = .splitCharacter ↔ byteLength digits = 6 ∧ ¬ Sliceable digits := by
  unfold ofHex
  by_cases six : byteLength digits = 6
  · rw [sliceable_iff six]
    cases cut : bytePairs? digits with
    | none => simp [six]
    | some pairs => simp [six, ofChannels_ne_splitCharacter]
  · simp [six]

theorem ofName_ne_splitCharacter (name : List Char) : ofName name ≠ .splitCharacter := by
  unfold ofName
  split <;> simp

theorem ofText_of_sign (sign : trim value = '#' :: digits) : ofText value = ofHex digits := by
  simp only [ofText, sign]

theorem ofText_of_no_sign (plain : (trim value).head? ≠ some '#') :
    ofText value = ofName (trim value) := by
  unfold ofText
  split
  · rename_i sign
    rw [sign] at plain
    exact absurd rfl plain
  · rfl

theorem ofText_eq_splitCharacter_iff :
    ofText value = .splitCharacter ↔
      ∃ digits, trim value = '#' :: digits ∧ byteLength digits = 6 ∧ ¬ Sliceable digits := by
  by_cases sign : (trim value).head? = some '#'
  · obtain ⟨digits, sign⟩ := List.head?_eq_some_iff.mp sign
    rw [ofText_of_sign sign, ofHex_eq_splitCharacter_iff]
    simp [sign]
  · rw [ofText_of_no_sign sign]
    constructor
    · intro split
      exact absurd split (ofName_ne_splitCharacter _)
    · rintro ⟨digits, same, _⟩
      simp [same] at sign

/-- What is read as a channel: two hexadecimal digits of either case or, behind a plus sign, one. -/
inductive Channel : List Char → Nat → Prop
  | pair {a b : Char} {x y : Nat} (high : digitValue? 16 a = some x)
      (low : digitValue? 16 b = some y) : Channel [a, b] (16 * x + y)
  | plus {b : Char} {y : Nat} (low : digitValue? 16 b = some y) : Channel ['+', b] y

def Code (text : List Char) (r g b : Nat) : Prop :=
  ∃ red green blue, text = '#' :: (red ++ green ++ blue) ∧ Channel red r ∧ Channel green g ∧
    Channel blue b

theorem digitValue?_lt {base x : Nat} {c : Char} (digit : digitValue? base c = some x) :
    x < base := by
  simp only [digitValue?, Option.ite_none_right_eq_some, Option.some.injEq] at digit
  exact digit.2 ▸ digit.1

theorem utf8Size_of_digit {x : Nat} {c : Char} (digit : digitValue? 16 c = some x) :
    c.utf8Size = 1 := by
  have known : ('0' ≤ c ∧ c ≤ '9') ∨ ('a' ≤ c ∧ c ≤ 'z') ∨ ('A' ≤ c ∧ c ≤ 'Z') := by
    unfold digitValue? at digit
    grind
  rw [Char.utf8Size_eq_one_iff, UInt32.le_iff_toNat_le]
  simp only [Char.le_def, UInt32.le_iff_toNat_le] at known
  rcases known with ⟨_, upper⟩ | ⟨_, upper⟩ | ⟨_, upper⟩ <;> exact Nat.le_trans upper (by decide)

theorem Channel.byteLength_eq {v : Nat} {piece : List Char} (channel : Channel piece v) :
    byteLength piece = 2 := by
  cases channel with
  | pair high low => simp [utf8Size_of_digit high, utf8Size_of_digit low]
  | plus low =>
    have plus : '+'.utf8Size = 1 := by decide
    simp [utf8Size_of_digit low, plus]

theorem unsigned_of_plain {a : Char} (plain : a ≠ '+') (s : List Char) :
    unsigned (a :: s) = a :: s := by
  unfold unsigned
  split
  · rename_i same
    exact absurd (List.cons.inj same).1 plain
  · rfl

theorem digitsValue?_pair (a b : Char) :
    digitsValue? 16 [a, b] =
      (digitValue? 16 a).bind fun x => (digitValue? 16 b).map (x * 16 + ·) := by
  simp [digitsValue?]

theorem digitsValue?_single (b : Char) : digitsValue? 16 [b] = digitValue? 16 b := by
  simp [digitsValue?]

theorem channel?_eq_some {piece : List Char} {v : Nat} (channel : Channel piece v) :
    channel? piece = some v := by
  cases channel with
  | @pair a b x y high low =>
    have first := digitValue?_lt high
    have second := digitValue?_lt low
    have plain : a ≠ '+' := by
      rintro rfl
      cases high
    have bound : x * 16 + y ≤ 255 := by omega
    simp [channel?, numeral?, unsigned_of_plain plain, digitsValue?_pair, high, low, bound,
      Nat.mul_comm]
  | plus low =>
    have := digitValue?_lt low
    have bound : v ≤ 255 := by omega
    simp [channel?, numeral?, unsigned, digitsValue?_single, low, bound]

theorem channel?_eq_some_iff {piece : List Char} (two : byteLength piece = 2) {v : Nat} :
    channel? piece = some v ↔ Channel piece v := by
  refine ⟨?_, channel?_eq_some⟩
  intro read
  obtain ⟨read, _⟩ := Option.filter_eq_some_iff.mp read
  rcases eq_of_two_bytes two with ⟨a, rfl, wide⟩ | ⟨a, b, rfl, _, _⟩
  · have plain : a ≠ '+' := by
      rintro rfl
      cases wide
    rw [unsigned_of_plain plain, digitsValue?_single] at read
    have narrow := utf8Size_of_digit read
    omega
  · by_cases signed : a = '+'
    · subst signed
      exact .plus (by rwa [unsigned, digitsValue?_single] at read)
    · rw [unsigned_of_plain signed, digitsValue?_pair] at read
      obtain ⟨x, high, read⟩ := Option.bind_eq_some_iff.mp read
      obtain ⟨y, low, rfl⟩ := Option.map_eq_some_iff.mp read
      rw [Nat.mul_comm]
      exact .pair high low

theorem ofChannels_eq_colour_iff {red green blue : List Char} :
    ofChannels [red, green, blue] = .colour colour ↔
      ∃ r g b, channel? red = some r ∧ channel? green = some g ∧ channel? blue = some b ∧
        colour = .rgb r g b := by
  unfold ofChannels
  grind

theorem ofHex_eq_colour_iff :
    ofHex digits = .colour colour ↔
      ∃ r g b, Code ('#' :: digits) r g b ∧ colour = .rgb r g b := by
  constructor
  · intro read
    unfold ofHex at read
    split at read
    · rename_i six
      split at read
      · rename_i pairs cut
        obtain ⟨red, green, blue, rfl, rfl, two, two', two''⟩ := three_pairs six cut
        obtain ⟨r, g, b, first, second, third, rfl⟩ := ofChannels_eq_colour_iff.mp read
        exact ⟨r, g, b, ⟨red, green, blue, rfl, (channel?_eq_some_iff two).mp first,
          (channel?_eq_some_iff two').mp second, (channel?_eq_some_iff two'').mp third⟩, rfl⟩
      · cases read
    · cases read
  · rintro ⟨r, g, b, ⟨red, green, blue, same, first, second, third⟩, rfl⟩
    cases same
    have cut : bytePairs? (red ++ green ++ blue) = some [red, green, blue] := by
      rw [bytePairs?_eq_some_iff]
      simp [first.byteLength_eq, second.byteLength_eq, third.byteLength_eq]
    have six : byteLength (red ++ green ++ blue) = 6 := by
      simp [first.byteLength_eq, second.byteLength_eq, third.byteLength_eq]
    simp only [ofHex, six, cut, if_true]
    exact ofChannels_eq_colour_iff.mpr
      ⟨r, g, b, channel?_eq_some first, channel?_eq_some second, channel?_eq_some third, rfl⟩

theorem named?_of_sign (s : List Char) : Colour.named? ('#' :: s) = none := by
  rw [Colour.named?, List.lookup_eq_none_iff]
  intro entry member
  have letter : ∀ entry ∈ Colour.names, entry.1.toList.head? ≠ some '#' := by decide
  have apart := letter entry member
  simp only [bne_iff_ne, ne_eq]
  intro same
  rw [← same] at apart
  simp [lower] at apart

theorem ofText_eq_colour_iff :
    ofText value = .colour colour ↔
      Colour.named? (trim value) = some colour ∨
        ∃ r g b, Code (trim value) r g b ∧ colour = .rgb r g b := by
  by_cases sign : (trim value).head? = some '#'
  · obtain ⟨digits, sign⟩ := List.head?_eq_some_iff.mp sign
    rw [ofText_of_sign sign, ofHex_eq_colour_iff, sign, named?_of_sign]
    simp
  · rw [ofText_of_no_sign sign]
    constructor
    · intro read
      left
      unfold ofName at read
      grind
    · rintro (named | ⟨r, g, b, ⟨red, green, blue, same, _⟩, _⟩)
      · simp [ofName, named]
      · simp [same] at sign

end TapeMachine.ColourReading
