import TapeMachine.Proofs.Settings.Reading
import TapeMachine.Proofs.Text.Line
import TapeMachine.Proofs.Text.Numeral

/-
The last assignment wins. However often sections and keys come again in a settings file, each
setting is what the last line that assigns its key under its heading says, or the default if there
is no such line or its value cannot be read; an earlier value never counts. Numbers from which no
tape can be made are given up together.
-/
namespace TapeMachine

open Text

namespace SettingsLine

variable {line text : List Char} {one two : SettingsLine}

theorem Unquoted.unique {raw value other : List Char} (one : Unquoted raw value)
    (two : Unquoted raw other) : value = other := by
  cases one with
  | quoted opened closed long cut =>
    cases two with
    | quoted _ _ _ cut' => exact cut.unique cut'
    | bare plain => exact absurd ⟨opened, closed, long⟩ plain
  | bare plain =>
    cases two with
    | quoted opened closed long _ => exact absurd ⟨opened, closed, long⟩ plain
    | bare _ => rfl

theorem whole_of_cut {left right : List Char} (before : Slice line 0 (byteLength left) left)
    (sign : Slice line (byteLength left) (byteLength left + 1) ['='])
    (after : Slice line (byteLength left + 1) (byteLength line) right) :
    line = left ++ '=' :: right := by
  have joined := (slice_whole line).unique ((before.append sign).append after)
  simpa using joined

theorem eq_of_first_sign {left right left' right' : List Char} (first : '=' ∉ left)
    (first' : '=' ∉ left') (same : left ++ '=' :: right = left' ++ '=' :: right') :
    left = left' ∧ right = right' := by
  induction left generalizing left' with
  | nil =>
    cases left' with
    | nil => exact ⟨rfl, (List.cons.inj same).2⟩
    | cons c cs =>
      obtain ⟨rfl, _⟩ := List.cons.inj same
      exact absurd List.mem_cons_self first'
  | cons c cs ih =>
    cases left' with
    | nil =>
      obtain ⟨rfl, _⟩ := List.cons.inj same
      exact absurd List.mem_cons_self first
    | cons d ds =>
      obtain ⟨rfl, later⟩ := List.cons.inj same
      obtain ⟨rfl, rest⟩ := ih (mt (List.mem_cons_of_mem _) first)
        (mt (List.mem_cons_of_mem _) first') later
      exact ⟨rfl, rest⟩

theorem not_skipped_of_assignment {left right : List Char} (counted : line.head? ≠ some '#')
    (whole : line = left ++ '=' :: right) (plain : ¬ Bracketed line) :
    ¬ (line = [] ∨ line.head? = some '#' ∨ ¬ Bracketed line ∧ '=' ∉ line) := by
  subst whole
  rintro (empty | comment | ⟨_, absent⟩)
  · simp at empty
  · exact counted comment
  · simp at absent

theorem not_skipped_of_bracketed (bracketed : Bracketed line) :
    ¬ (line = [] ∨ line.head? = some '#' ∨ ¬ Bracketed line ∧ '=' ∉ line) := by
  rintro (rfl | comment | ⟨plain, _⟩)
  · cases bracketed.1
  · rw [bracketed.1] at comment
    cases comment
  · exact plain bracketed

theorem CutFrom.unique (first : CutFrom line one) (second : CutFrom line two) : one = two := by
  cases first with
  | nothing skipped =>
    cases second with
    | nothing _ => rfl
    | heading bracketed _ => exact absurd skipped (not_skipped_of_bracketed bracketed)
    | assignment counted plain _ before sign after _ =>
      exact absurd skipped
        (not_skipped_of_assignment counted (whole_of_cut before sign after) plain)
  | heading bracketed cut =>
    cases second with
    | nothing skipped => exact absurd skipped (not_skipped_of_bracketed bracketed)
    | heading _ cut' => rw [cut.unique cut']
    | assignment _ plain => exact absurd bracketed plain
  | assignment counted plain first before sign after unquoted =>
    have whole := whole_of_cut before sign after
    cases second with
    | nothing skipped => exact absurd skipped (not_skipped_of_assignment counted whole plain)
    | heading bracketed _ => exact absurd bracketed plain
    | assignment _ _ first' before' sign' after' unquoted' =>
      have whole' := whole_of_cut before' sign' after'
      obtain ⟨rfl, rfl⟩ := eq_of_first_sign first first' (whole.symm.trans whole')
      rw [unquoted.unique unquoted']

theorem cutFrom_iff : CutFrom (trim text) one ↔ ofText text = one := by
  constructor
  · intro cut
    exact (cutFrom_ofText text).unique cut
  · rintro rfl
    exact cutFrom_ofText text

end SettingsLine

section

variable {α : Type} {gives : Nat → α → Prop} {n : Nat} {a b : α}

/-- What the latest of the first so many lines gives, of those that give anything. -/
def Latest (gives : Nat → α → Prop) (n : Nat) (a : α) : Prop :=
  ∃ m, m < n ∧ gives m a ∧ ∀ k, m < k → k < n → ∀ b, ¬ gives k b

theorem latest_succ (here : gives n a) : Latest gives (n + 1) a := by
  refine ⟨n, Nat.lt_succ_self n, here, fun k after before => ?_⟩
  exact absurd after (Nat.not_lt_of_le (Nat.le_of_lt_succ before))

theorem latest_succ_of_gives (given : ∀ b, gives n b ↔ b = a) :
    Latest gives (n + 1) b ↔ b = a := by
  have here : gives n a := (given a).mpr rfl
  constructor
  · rintro ⟨m, before, gave, later⟩
    rcases Nat.lt_succ_iff_lt_or_eq.mp before with earlier | rfl
    · exact absurd here (later n earlier (Nat.lt_succ_self n) a)
    · exact (given b).mp gave
  · rintro rfl
    exact latest_succ here

theorem latest_succ_of_nothing (nothing : ∀ b, ¬ gives n b) :
    Latest gives (n + 1) a ↔ Latest gives n a := by
  constructor
  · rintro ⟨m, before, gave, later⟩
    rcases Nat.lt_succ_iff_lt_or_eq.mp before with earlier | rfl
    · exact ⟨m, earlier, gave, fun k after inside => later k after (Nat.lt_succ_of_lt inside)⟩
    · exact absurd gave (nothing a)
  · rintro ⟨m, before, gave, later⟩
    refine ⟨m, Nat.lt_succ_of_lt before, gave, fun k after inside => ?_⟩
    rcases Nat.lt_succ_iff_lt_or_eq.mp inside with earlier | rfl
    · exact later k after earlier
    · exact nothing

theorem exists_latest {m : Nat} (inside : m < n) (gave : gives m a) : ∃ b, Latest gives n b := by
  induction n with
  | zero => exact absurd inside (Nat.not_lt_zero m)
  | succ n ih =>
    by_cases last : ∃ b, gives n b
    · obtain ⟨b, here⟩ := last
      exact ⟨b, latest_succ here⟩
    · have nothing : ∀ b, ¬ gives n b := fun b here => last ⟨b, here⟩
      rcases Nat.lt_succ_iff_lt_or_eq.mp inside with earlier | rfl
      · obtain ⟨b, latest⟩ := ih earlier
        exact ⟨b, (latest_succ_of_nothing nothing).mpr latest⟩
      · exact absurd gave (nothing a)

end

def HeadingAt (texts : List (List Char)) (n : Nat) (name : List Char) : Prop :=
  ∃ text, texts[n]? = some text ∧ SettingsLine.CutFrom (trim text) (.heading name)

/-- The line at this index gives the key this value, in a section of this name. -/
def AssignsAt (texts : List (List Char)) (heading key : List Char) (n : Nat) (value : List Char) :
    Prop :=
  Latest (HeadingAt texts) n heading ∧
    ∃ text, texts[n]? = some text ∧ SettingsLine.CutFrom (trim text) (.assignment key value)

namespace SettingsTable

variable {texts : List (List Char)} {text : List Char} {n : Nat} {table : SettingsTable}

theorem headingAt_iff (found : texts[n]? = some text) (name : List Char) :
    HeadingAt texts n name ↔ SettingsLine.ofText text = .heading name := by
  simp [HeadingAt, found, SettingsLine.cutFrom_iff]

theorem assignsAt_iff (found : texts[n]? = some text) (heading key value : List Char) :
    AssignsAt texts heading key n value ↔
      Latest (HeadingAt texts) n heading ∧ SettingsLine.ofText text = .assignment key value := by
  simp [AssignsAt, found, SettingsLine.cutFrom_iff]

/-- The table holds what the first so many lines say. The name of a section that no line has begun
is empty, and so is that of one with an empty heading. -/
structure Reflects (texts : List (List Char)) (n : Nat) (table : SettingsTable) : Prop where
  heading_eq_iff : ∀ name, name ≠ [] → (table.heading = name ↔ Latest (HeadingAt texts) n name)
  value?_eq_some_iff : ∀ (heading key : String) value, heading ≠ "" →
    (table.value? heading key = some value ↔
      Latest (AssignsAt texts heading.toList key.toList) n value)

theorem addLine_nothing (read : SettingsLine.ofText text = .nothing) :
    table.addLine text = table := by
  simp only [addLine, read]

theorem addLine_heading {name : List Char} (read : SettingsLine.ofText text = .heading name) :
    table.addLine text = { table with heading := name } := by
  simp only [addLine, read]

theorem value?_addLine {key value : List Char}
    (read : SettingsLine.ofText text = .assignment key value) (heading key' : String) :
    (table.addLine text).value? heading key' =
      if table.heading = heading.toList ∧ key = key'.toList then some value
      else table.value? heading key' := by
  simp only [addLine, read, value?, List.find?_cons, Assignment.assigns]
  split
  · rename_i same
    rw [if_pos (by simpa using same)]
    rfl
  · rename_i other
    rw [if_neg (by simpa using other), List.find?_filter]
    -- Only assignments of the key that the line sets are gone.
    congr 2
    funext a
    cases wanted : decide (a.heading = heading.toList) && decide (a.key = key'.toList) with
    | false => simp
    | true =>
      have same : a.heading = heading.toList ∧ a.key = key'.toList := by simpa using wanted
      have apart : ¬ (table.heading = heading.toList ∧ key = key'.toList) := by simpa using other
      have kept : ¬ (a.heading = table.heading ∧ a.key = key) := by
        intro again
        exact apart ⟨again.1.symm.trans same.1, again.2.symm.trans same.2⟩
      simpa using Decidable.not_and_iff_not_or_not.mp kept

theorem addLine_assignment {key value : List Char}
    (read : SettingsLine.ofText text = .assignment key value) :
    (table.addLine text).heading = table.heading := by
  simp only [addLine, read]

theorem Reflects.addLine (before : Reflects texts n table) (found : texts[n]? = some text) :
    Reflects texts (n + 1) (table.addLine text) := by
  have begins := headingAt_iff found
  have assigns := assignsAt_iff found
  cases read : SettingsLine.ofText text with
  | nothing =>
    rw [addLine_nothing read]
    refine ⟨fun name named => ?_, fun heading key value named => ?_⟩
    · rw [before.heading_eq_iff name named, latest_succ_of_nothing (by simp [begins, read])]
    · rw [before.value?_eq_some_iff heading key value named,
        latest_succ_of_nothing (by simp [assigns, read])]
  | heading name =>
    rw [addLine_heading read]
    refine ⟨fun other named => ?_, fun heading key value named => ?_⟩
    · rw [latest_succ_of_gives (a := name) (by simp [begins, read, eq_comm])]
      exact eq_comm
    · rw [latest_succ_of_nothing (by simp [assigns, read])]
      exact before.value?_eq_some_iff heading key value named
  | assignment key value =>
    refine ⟨fun name named => ?_, fun heading key' value' named => ?_⟩
    · rw [addLine_assignment read, before.heading_eq_iff name named,
        latest_succ_of_nothing (by simp [begins, read])]
    · have section_iff := before.heading_eq_iff heading.toList (by simpa using named)
      rw [value?_addLine read]
      split
      · rename_i same
        obtain ⟨inside, rfl⟩ := same
        rw [latest_succ_of_gives (a := value)]
        · simp [eq_comm]
        · simp [assigns, read, section_iff.mp inside, eq_comm]
      · rename_i other
        rw [before.value?_eq_some_iff heading key' value' named, latest_succ_of_nothing]
        simp only [assigns, read, ← section_iff, SettingsLine.assignment.injEq]
        rintro _ ⟨inside, rfl, _⟩
        exact other ⟨inside, rfl⟩

theorem reflects_ofText (content : List Char) :
    Reflects (lines content) (lines content).length (ofText content) := by
  have every (n : Nat) (inside : n ≤ (lines content).length) :
      Reflects (lines content) n (((lines content).take n).foldl SettingsTable.addLine {}) := by
    induction n with
    | zero =>
      refine ⟨fun name named => ?_, fun heading key value _ => ?_⟩
      · simp [Latest, Ne.symm named]
      · simp [Latest, value?]
    | succ n ih =>
      have found := List.getElem?_eq_getElem (Nat.lt_of_succ_le inside)
      rw [List.take_add_one, found, Option.toList_some, List.foldl_append]
      exact (ih (Nat.le_of_succ_le inside)).addLine found
  have whole := every _ (Nat.le_refl _)
  rwa [List.take_length] at whole

end SettingsTable

end TapeMachine
