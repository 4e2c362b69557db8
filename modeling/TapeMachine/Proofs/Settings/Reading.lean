import TapeMachine.Proofs.Settings.ColourValue
import TapeMachine.Settings

/-
Reading a settings file. Lines and quoted values are taken apart at ASCII characters, so every piece
of a line is there. The digits of a colour are the one place where a piece may end inside a
character: a file is read exactly if that happens for none of its colours. Then each colour is the
one its value denotes, or the default one.
-/
namespace TapeMachine

open Text

namespace SettingsLine

variable {line text value : List Char}

/-- A value is taken as it stands, without the double quotes if it has one at each end. -/
inductive Unquoted (raw : List Char) : List Char → Prop
  | quoted {inner : List Char} (opened : raw.head? = some '"') (closed : raw.getLast? = some '"')
      (long : 2 ≤ byteLength raw) (cut : Slice raw 1 (byteLength raw - 1) inner) :
      Unquoted raw inner
  | bare (plain : ¬ (raw.head? = some '"' ∧ raw.getLast? = some '"' ∧ 2 ≤ byteLength raw)) :
      Unquoted raw raw

def Bracketed (line : List Char) : Prop := line.head? = some '[' ∧ line.getLast? = some ']'

/-- The pieces of a line lie between offsets at which characters begin. -/
inductive CutFrom (line : List Char) : SettingsLine → Prop
  | nothing (skipped : line = [] ∨ line.head? = some '#' ∨ ¬ Bracketed line ∧ '=' ∉ line) :
      CutFrom line .nothing
  | heading {inner : List Char} (bracketed : Bracketed line)
      (cut : Slice line 1 (byteLength line - 1) inner) : CutFrom line (.heading (trim inner))
  | assignment {left right value : List Char} (counted : line.head? ≠ some '#')
      (plain : ¬ Bracketed line) (first : '=' ∉ left)
      (before : Slice line 0 (byteLength left) left)
      (sign : Slice line (byteLength left) (byteLength left + 1) ['='])
      (after : Slice line (byteLength left + 1) (byteLength line) right)
      (unquoted : Unquoted (trim right) value) : CutFrom line (.assignment (trim left) value)

theorem unquoted_unquote (value : List Char) : Unquoted value (unquote value) := by
  have narrow : '"'.utf8Size = 1 := by decide
  unfold unquote
  split
  · rename_i quotes
    obtain ⟨opened, closed, long⟩ := quotes
    have whole := eq_inner_of_ends opened closed (.inr long)
    have cut := slice_inner narrow narrow value.tail.dropLast
    rw [← whole] at cut
    refine .quoted opened closed ?_ cut
    rw [whole]
    simp only [byteLength_cons, byteLength_append, narrow]
    omega
  · rename_i bare
    refine .bare ?_
    rintro ⟨opened, closed, long⟩
    -- A single double quote is one byte.
    obtain ⟨rest, rfl⟩ := List.head?_eq_some_iff.mp opened
    cases rest with
    | nil => simp [narrow] at long
    | cons c cs => exact bare ⟨opened, closed, by simp⟩

theorem sign_not_mem_front (line : List Char) : '=' ∉ line.takeWhile (· ≠ '=') := by
  intro member
  have apart := List.all_eq_true.mp List.all_takeWhile '=' member
  simp at apart

theorem assignment_of_sign {c : Char} (counted : line.head? ≠ some '#') (plain : ¬ Bracketed line)
    (cut : line.dropWhile (· ≠ '=') = c :: value) :
    CutFrom line (.assignment (trim (line.takeWhile (· ≠ '='))) (unquote (trim value))) := by
  have sign : c = '=' := by
    have head := List.head?_dropWhile_not (· ≠ '=') line
    rw [cut] at head
    simpa using head
  subst sign
  have whole : line = line.takeWhile (· ≠ '=') ++ '=' :: value := by
    rw [← cut, List.takeWhile_append_dropWhile]
  have first := sign_not_mem_front line
  have width : byteLength ['='] = 1 := by decide
  generalize line.takeWhile (· ≠ '=') = left at whole first
  subst whole
  refine .assignment counted plain first (slice_front left _) ?sign ?after (unquoted_unquote _)
  case sign => exact ⟨left, value, by simp, rfl, by simp [width]⟩
  case after => simpa [width] using slice_rest (left ++ ['=']) value

theorem cutFrom_ofText (text : List Char) : CutFrom (trim text) (ofText text) := by
  unfold ofText
  generalize trim text = line
  dsimp only
  split
  · rename_i skipped
    refine .nothing ?_
    rcases skipped with empty | comment
    · exact .inl (List.isEmpty_iff.mp empty)
    · exact .inr (.inl comment)
  · rename_i counted
    split
    · rename_i bracketed
      have whole := eq_inner_of_ends bracketed.1 bracketed.2 (.inl (by decide))
      have cut := slice_inner (a := '[') (b := ']') (by decide) (by decide) line.tail.dropLast
      rw [← whole] at cut
      exact .heading bracketed cut
    · rename_i plain
      split
      · rename_i none
        have whole := List.takeWhile_append_dropWhile (p := (· ≠ '=')) (l := line)
        rw [none, List.append_nil] at whole
        exact .nothing (.inr (.inr ⟨plain, whole ▸ sign_not_mem_front line⟩))
      · rename_i cut
        exact assignment_of_sign (fun comment => counted (.inr comment)) plain cut

end SettingsLine

namespace Settings

variable {table : SettingsTable} {settings : Settings} {role : Role}

/-- The colour that a value stands for, by its name or by its code. -/
def Denotes (value : List Char) (colour : Colour) : Prop :=
  Colour.named? (trim value) = some colour ∨
    ∃ r g b, ColourReading.Code (trim value) r g b ∧ colour = .rgb r g b

theorem ofTable_eq_ok_iff :
    ofTable table = .ok settings ↔ (∀ role, colourReading table role ≠ .splitCharacter) ∧
      settings = { tape := tapeOf table, rails := railsOf table, palette := paletteOf table } := by
  unfold ofTable
  split
  · rename_i role found
    have split := List.find?_some found
    simp only [decide_eq_true_eq] at split
    constructor
    · intro read
      cases read
    · rintro ⟨whole, _⟩
      exact absurd split (whole role)
  · rename_i none
    simp only [List.find?_eq_none, decide_eq_true_eq] at none
    have whole (role : Role) := none role (Role.mem_all role)
    simp [whole, eq_comm]

theorem colourReading_of_value {value : List Char}
    (given : table.value? "colors" role.key = some value) :
    colourReading table role = .ofText value := by
  rw [colourReading, given]

theorem colourReading_of_no_value (none : table.value? "colors" role.key = none) :
    colourReading table role = .unknown := by
  rw [colourReading, none]

theorem colour_of_ok (read : ofTable table = .ok settings) (role : Role) :
    settings.palette.get role = (colourReading table role).getD role.defaultColour := by
  obtain ⟨_, rfl⟩ := ofTable_eq_ok_iff.mp read
  exact Palette.get_ofRoles _ role

theorem getD_eq_default {reading : ColourReading} {default : Colour}
    (none : ∀ colour, reading ≠ .colour colour) : reading.getD default = default := by
  cases reading with
  | colour value => exact absurd rfl (none value)
  | unknown | splitCharacter => rfl

theorem exists_ok_iff :
    (∃ settings, ofTable table = .ok settings) ↔
      ∀ (role : Role) value digits, table.value? "colors" role.key = some value →
        trim value = '#' :: digits → byteLength digits = 6 → ColourReading.Sliceable digits := by
  constructor
  · rintro ⟨settings, read⟩ role value digits given sign six
    have whole := (ofTable_eq_ok_iff.mp read).1 role
    rw [colourReading_of_value given, ne_eq, ColourReading.ofText_eq_splitCharacter_iff] at whole
    apply Classical.byContradiction
    intro cut
    exact whole ⟨digits, sign, six, cut⟩
  · intro whole
    refine ⟨_, ofTable_eq_ok_iff.mpr ⟨?_, rfl⟩⟩
    intro role split
    cases given : table.value? "colors" role.key with
    | none =>
      rw [colourReading_of_no_value given] at split
      cases split
    | some value =>
      rw [colourReading_of_value given, ColourReading.ofText_eq_splitCharacter_iff] at split
      obtain ⟨digits, sign, six, cut⟩ := split
      exact cut (whole role value digits given sign six)

theorem colour_of_value {value : List Char} (read : ofTable table = .ok settings)
    (given : table.value? "colors" role.key = some value) :
    (∀ colour, Denotes value colour → settings.palette.get role = colour) ∧
      ((∀ colour, ¬ Denotes value colour) → settings.palette.get role = role.defaultColour) := by
  rw [colour_of_ok read, colourReading_of_value given]
  constructor
  · intro colour denoted
    rw [ColourReading.ofText_eq_colour_iff.mpr denoted]
    rfl
  · intro bad
    refine getD_eq_default ?_
    intro colour read
    exact bad colour (ColourReading.ofText_eq_colour_iff.mp read)

/-- A text is read as settings unless a pair of digits of one of the colours ends inside a
character. Lines are only ever cut between characters, and a value that stands for no colour leaves
the default. -/
theorem read_unless_character_split (content : List Char) :
    (∀ text ∈ lines content, SettingsLine.CutFrom (trim text) (SettingsLine.ofText text)) ∧
    ((∃ settings, ofText content = .ok settings) ↔
      ∀ (role : Role) value digits,
        (SettingsTable.ofText content).value? "colors" role.key = some value →
        trim value = '#' :: digits → byteLength digits = 6 → ColourReading.Sliceable digits) ∧
    ∀ settings, ofText content = .ok settings → ∀ role : Role,
      ((SettingsTable.ofText content).value? "colors" role.key = none →
        settings.palette.get role = role.defaultColour) ∧
      ∀ value, (SettingsTable.ofText content).value? "colors" role.key = some value →
        (∀ colour, Denotes value colour → settings.palette.get role = colour) ∧
        ((∀ colour, ¬ Denotes value colour) →
          settings.palette.get role = role.defaultColour) := by
  refine ⟨?lines, exists_ok_iff, ?colours⟩
  case lines =>
    intro text _
    exact SettingsLine.cutFrom_ofText text
  case colours =>
    intro settings read role
    refine ⟨?_, fun value given => colour_of_value read given⟩
    intro none
    rw [colour_of_ok read, colourReading_of_no_value none]
    rfl

/-- A colour without a known name, a name in quotes, and a code with digits of both cases. -/
theorem read_with_bad_value :
    ∃ settings,
      ofText "[colors]\nerror = crimson\nhint = \"Red\"\ninfo = #0aF9ff".toList = .ok settings ∧
      settings.palette.error = Role.error.defaultColour ∧ settings.palette.hint = .red ∧
      settings.palette.info = .rgb 10 249 255 := by
  obtain ⟨settings, read⟩ : ∃ settings,
      ofText "[colors]\nerror = crimson\nhint = \"Red\"\ninfo = #0aF9ff".toList = .ok settings :=
    ⟨_, rfl⟩
  have colours := (read_unless_character_split _).2.2 settings read
  refine ⟨settings, read, ?bad, ?name, ?code⟩
  case bad =>
    refine ((colours .error).2 "crimson".toList rfl).2 ?_
    rintro colour (named | ⟨r, g, b, ⟨red, green, blue, same, _⟩, _⟩)
    · cases named
    · cases same
  case name => exact ((colours .hint).2 "Red".toList rfl).1 .red (.inl rfl)
  case code =>
    have code : ColourReading.Code "#0aF9ff".toList 10 249 255 :=
      ⟨['0', 'a'], ['F', '9'], ['f', 'f'], rfl, .pair (x := 0) (y := 10) rfl rfl,
        .pair (x := 15) (y := 9) rfl rfl, .pair (x := 15) (y := 15) rfl rfl⟩
    exact ((colours .info).2 "#0aF9ff".toList rfl).1 _ (.inr ⟨10, 249, 255, code, rfl⟩)

/-- Two bad values: one whose first pair of digits ends inside a character, so that nothing is read,
and one that is read as a colour for its plus signs. -/
theorem bad_values_not_skipped :
    ofText "[colors]\nerror = #a\u00e9123".toList = .error (.splitCharacter .error) ∧
      ∃ settings, ofText "[colors]\nerror = #+f+f+f".toList = .ok settings ∧
        settings.palette.error = .rgb 15 15 15 := by
  refine ⟨rfl, _, rfl, ?_⟩
  decide

end Settings

end TapeMachine
