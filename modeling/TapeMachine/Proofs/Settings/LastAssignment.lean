import TapeMachine.Proofs.Settings.Assignments

/-
What a settings file sets. Every setting is the value of the last line that assigns its key in a
section of its name, or the default if there is no such line or that value cannot be read, even if
an earlier one could. Two numbers from which no tape can be made are given up together.
-/
namespace TapeMachine

open Text

variable {α : Type} {texts : List (List Char)} {heading key : String} {value content : List Char}
  {denotes : List Char → α → Prop} {default a : α}

/-- The last line that assigns a key decides, and without a value that can be read the default. -/
inductive SetTo (texts : List (List Char)) (heading key : String) (denotes : List Char → α → Prop)
    (default : α) : α → Prop
  | given {value : List Char} {a : α}
      (last : Latest (AssignsAt texts heading.toList key.toList) texts.length value)
      (denoted : denotes value a) : SetTo texts heading key denotes default a
  | unread {value : List Char}
      (last : Latest (AssignsAt texts heading.toList key.toList) texts.length value)
      (bad : ∀ a, ¬ denotes value a) : SetTo texts heading key denotes default default
  | absent (none : ∀ n value, ¬ AssignsAt texts heading.toList key.toList n value) :
      SetTo texts heading key denotes default default

theorem AssignsAt.inside {name word : List Char} {n : Nat}
    (assigns : AssignsAt texts name word n value) : n < texts.length := by
  obtain ⟨_, text, found, _⟩ := assigns
  exact (List.getElem?_eq_some_iff.mp found).1

namespace SettingsTable

variable {table : SettingsTable}

theorem value?_eq_none_iff (whole : Reflects texts texts.length table) (named : heading ≠ "") :
    table.value? heading key = none ↔
      ∀ n value, ¬ AssignsAt texts heading.toList key.toList n value := by
  rw [Option.eq_none_iff_forall_ne_some]
  constructor
  · intro none n value assigns
    obtain ⟨last, latest⟩ := exists_latest assigns.inside assigns
    exact none last ((whole.value?_eq_some_iff heading key last named).mpr latest)
  · intro none value found
    obtain ⟨n, _, assigns, _⟩ := (whole.value?_eq_some_iff heading key value named).mp found
    exact none n value assigns

theorem setTo_getD {parse : List Char → Option α} (whole : Reflects texts texts.length table)
    (reads : ∀ value a, parse value = some a ↔ denotes value a) (heading key : String)
    (named : heading ≠ "") (default : α) :
    SetTo texts heading key denotes default
      (((table.value? heading key).bind parse).getD default) := by
  cases found : table.value? heading key with
  | none => exact .absent ((value?_eq_none_iff whole named).mp found)
  | some value =>
    have last := (whole.value?_eq_some_iff heading key value named).mp found
    cases read : parse value with
    | none =>
      simp only [Option.bind_some, read, Option.getD_none]
      refine .unread last fun a denoted => ?_
      rw [(reads value a).mpr denoted] at read
      cases read
    | some a =>
      simp only [Option.bind_some, read, Option.getD_some]
      exact .given last ((reads value a).mp read)

end SettingsTable

def GroupedNumber (bound : Nat) (value : List Char) (n : Nat) : Prop :=
  Decimal (value.filter (· ≠ '_')) n ∧ n ≤ bound

/-- A word for true or for false, in any case and with blanks around it. -/
inductive TruthWord (value : List Char) : Bool → Prop
  | affirmed {word : String} (listed : word ∈ trueWords)
      (spelled : lower (trim value) = word.toList) : TruthWord value true
  | denied {word : String} (listed : word ∈ falseWords)
      (spelled : lower (trim value) = word.toList) : TruthWord value false

theorem boolean?_eq_some_iff (value : List Char) (truth : Bool) :
    boolean? value = some truth ↔ TruthWord value truth := by
  unfold boolean?
  constructor
  · intro read
    dsimp only at read
    split at read
    · rename_i listed
      cases read
      exact .affirmed listed String.toList_ofList.symm
    · split at read
      · rename_i listed
        cases read
        exact .denied listed String.toList_ofList.symm
      · cases read
  · rintro (⟨listed, spelled⟩ | ⟨listed, spelled⟩)
    · simp [spelled, listed]
    · -- No word stands for both.
      have other : ∀ word ∈ falseWords, word ∉ trueWords := by decide
      simp [spelled, listed, other _ listed]

namespace Settings

variable {settings : Settings}

theorem groupedDecimal?_eq_some_iff (bound : Nat) (value : List Char) (n : Nat) :
    groupedDecimal? bound value = some n ↔ GroupedNumber bound value n :=
  decimal?_eq_some_iff

theorem usable_eq (config : TapeConfig) :
    usable config = if config.capacity = 0 ∨ config.limit < 2 then {} else config := by
  unfold usable TapeConfig.error?
  grind

theorem colour_setTo {table : SettingsTable}
    (whole : SettingsTable.Reflects texts texts.length table) (read : ofTable table = .ok settings)
    (role : Role) :
    SetTo texts "colors" role.key Denotes role.defaultColour (settings.palette.get role) := by
  cases found : table.value? "colors" role.key with
  | none =>
    rw [colour_of_ok read, colourReading_of_no_value found]
    exact .absent ((SettingsTable.value?_eq_none_iff whole (by decide)).mp found)
  | some value =>
    have last := (whole.value?_eq_some_iff "colors" role.key value (by decide)).mp found
    obtain ⟨good, bad⟩ := colour_of_value read found
    by_cases denoted : ∃ colour, Denotes value colour
    · obtain ⟨colour, denoted⟩ := denoted
      rw [good colour denoted]
      exact .given last denoted
    · have none := not_exists.mp denoted
      rw [bad none]
      exact .unread last none

/-- Every setting is by the last line that assigns it. Lines are read as they were cut, and the tape
can be made whatever the numbers are. -/
theorem last_assignment_wins (read : ofText content = .ok settings) :
    (∃ ls tail, CutAt content ls tail ∧
      lines content = ls.map dropReturn ++ if tail = [] then [] else [tail]) ∧
    (∃ capacity limit,
      SetTo (lines content) "interpreter" "memory_capacity" (GroupedNumber maxWord64) 32768
        capacity ∧
      SetTo (lines content) "interpreter" "integer_limit" (GroupedNumber maxWord32) 256 limit ∧
      settings.tape = if capacity = 0 ∨ limit < 2 then { capacity := 32768, limit := 256 }
        else { capacity := capacity, limit := limit }) ∧
    SetTo (lines content) "interpreter" "guard_rails" TruthWord false settings.rails ∧
    (∀ role : Role,
      SetTo (lines content) "colors" role.key Denotes role.defaultColour
        (settings.palette.get role)) ∧
    settings.tape.Valid := by
  have whole := SettingsTable.reflects_ofText content
  obtain ⟨_, same⟩ := ofTable_eq_ok_iff.mp read
  refine ⟨?cut, ?numbers, ?rails, colour_setTo whole read, ?valid⟩
  case cut =>
    obtain ⟨ls, tail, cut⟩ := exists_cutAt content
    exact ⟨ls, tail, cut, cut.lines_eq⟩
  case numbers =>
    have capacity := SettingsTable.setTo_getD whole (groupedDecimal?_eq_some_iff maxWord64)
      "interpreter" "memory_capacity" (by decide) 32768
    have limit := SettingsTable.setTo_getD whole (groupedDecimal?_eq_some_iff maxWord32)
      "interpreter" "integer_limit" (by decide) 256
    refine ⟨_, _, capacity, limit, ?_⟩
    rw [same]
    exact usable_eq _
  case rails =>
    rw [same]
    exact SettingsTable.setTo_getD whole boolean?_eq_some_iff "interpreter" "guard_rails"
      (by decide) false
  case valid =>
    rw [same]
    exact usable_valid _

def repeatedSections : List Char :=
  ("[interpreter]\nmemory_capacity = 4_0\nguard_rails = ON\n[colors]\nhint = red\n" ++
    "[interpreter]\ninteger_limit = 9\nmemory_capacity = 0\n[colors]\nhint = x").toList

set_option maxRecDepth 4096 in
/-- A capacity that is read after another one leaves no tape, so that both numbers are given up; the
guard rails of the same section stay, and an unknown colour hides the one before it. -/
theorem last_assignment_wins_in_repeated_sections :
    ∃ settings, ofText repeatedSections = .ok settings ∧
      settings.tape = { capacity := 32768, limit := 256 } ∧ settings.rails = true ∧
      settings.palette.hint = Role.hint.defaultColour ∧ settings.tape.Valid := by
  have read : ofText repeatedSections = .ok _ := rfl
  refine ⟨_, read, by decide, by decide, by decide, ?_⟩
  exact (last_assignment_wins read).2.2.2.2

end Settings

end TapeMachine
