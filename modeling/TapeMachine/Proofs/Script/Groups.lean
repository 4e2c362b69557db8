import TapeMachine.Proofs.Script.Chunks

/-
The chunks of a script by the groups its lines fall into: single command lines, and runs of code
that go on until the next command line. A command line gives its trimmed text and a run its lines,
unless it is blank. Nothing visible is lost on the way, and no two programs meet.
-/
namespace TapeMachine.Script

open Text

variable {α : Type} {kind : α → Bool} {x : α} {xs : List α}
variable {script : List Char} {code rest : List (List Char)}

def Apart (kind : α → Bool) (xs : List α) : Prop :=
  ∀ a b, [a, b] <:+: xs → kind a = false ∨ kind b = false

theorem apart_nil : Apart kind [] := by
  intro a b part
  cases List.infix_nil.mp part

theorem apart_cons_iff :
    Apart kind (x :: xs) ↔
      (∀ next, xs.head? = some next → kind x = false ∨ kind next = false) ∧ Apart kind xs := by
  simp only [Apart, List.infix_cons_iff, List.cons_prefix_cons]
  constructor
  · intro apart
    refine ⟨?_, fun a b part => apart a b (.inr part)⟩
    intro next found
    obtain ⟨later, rfl⟩ := List.head?_eq_some_iff.mp found
    exact apart x next (.inl ⟨rfl, later, rfl⟩)
  · rintro ⟨front, apart⟩ a b (⟨rfl, later, rfl⟩ | part)
    · exact front b rfl
    · exact apart a b part

theorem apart_cons (other : kind x = false) (apart : Apart kind xs) : Apart kind (x :: xs) :=
  apart_cons_iff.mpr ⟨fun _ _ => .inl other, apart⟩

inductive Group
  | command (line : List Char)
  | run (code : List (List Char))

namespace Group

def isRun : Group → Bool
  | .command _ => false
  | .run _ => true

def lines : Group → List (List Char)
  | .command line => [line]
  | .run code => code

def chunks : Group → List (List Char)
  | .command line => [trim line]
  | .run code => if code.all (·.all isBlank) then [] else [unlines code]

inductive Formed : Group → Prop
  | command {line : List Char} (command : isCommandLine line = true) : Formed (.command line)
  | run {code : List (List Char)} (nonempty : code ≠ [])
      (plain : ∀ line ∈ code, isCommandLine line = false) : Formed (.run code)

theorem visible_chunks (group : Group) :
    group.chunks.flatMap visible = group.lines.flatMap visible := by
  cases group with
  | command line => simp [chunks, lines, visible_trim]
  | run code =>
    simp only [chunks, lines, ← visible_unlines code]
    split
    · rename_i blank
      rw [← all_isBlank_unlines] at blank
      rw [visible_eq_nil blank]
      rfl
    · simp

end Group

/-- Commands one by one, and code in runs that are as long as they can be. -/
structure WellGrouped (groups : List Group) : Prop where
  formed : ∀ group ∈ groups, group.Formed
  maximal : Apart Group.isRun groups

/-- The groups of a script that is cut at its line feeds. -/
structure GroupsOf (script : List Char) (groups : List Group) : Prop
    extends WellGrouped groups where
  cut : ∃ ls tail, CutAt script ls tail ∧
    groups.flatMap Group.lines = ls.map dropReturn ++ if tail = [] then [] else [tail]

variable {group : Group} {groups : List Group}

theorem wellGrouped_nil : WellGrouped [] := ⟨by simp, apart_nil⟩

theorem wellGrouped_cons_iff :
    WellGrouped (group :: groups) ↔
      group.Formed ∧ WellGrouped groups ∧
        ∀ next, groups.head? = some next → group.isRun = false ∨ next.isRun = false := by
  constructor
  · rintro ⟨formed, maximal⟩
    obtain ⟨first, others⟩ := List.forall_mem_cons.mp formed
    obtain ⟨front, apart⟩ := apart_cons_iff.mp maximal
    exact ⟨first, ⟨others, apart⟩, front⟩
  · rintro ⟨first, ⟨others, apart⟩, front⟩
    exact ⟨List.forall_mem_cons.mpr ⟨first, others⟩, apart_cons_iff.mpr ⟨front, apart⟩⟩

theorem exists_wellGrouped (ls : List (List Char)) :
    ∃ groups, WellGrouped groups ∧ groups.flatMap Group.lines = ls := by
  induction ls with
  | nil => exact ⟨[], wellGrouped_nil, rfl⟩
  | cons line ls ih =>
    obtain ⟨groups, grouped, rfl⟩ := ih
    cases kind : isCommandLine line with
    | true =>
      refine ⟨.command line :: groups, ?_, rfl⟩
      exact wellGrouped_cons_iff.mpr ⟨.command kind, grouped, fun _ _ => .inl rfl⟩
    | false =>
      have single : (Group.run [line]).Formed := .run (by simp) (by simpa using kind)
      match groups, grouped with
      | [], grouped =>
        refine ⟨[.run [line]], ?_, rfl⟩
        exact wellGrouped_cons_iff.mpr ⟨single, grouped, by simp⟩
      | .command later :: groups, grouped =>
        refine ⟨.run [line] :: .command later :: groups, ?_, rfl⟩
        exact wellGrouped_cons_iff.mpr ⟨single, grouped, by simp [Group.isRun]⟩
      | .run code :: groups, grouped =>
        -- The line has to join the run behind it, or that would not be as long as it can be.
        obtain ⟨formed, others, front⟩ := wellGrouped_cons_iff.mp grouped
        cases formed with
        | run _ plain =>
          refine ⟨.run (line :: code) :: groups, wellGrouped_cons_iff.mpr ⟨?_, others, front⟩, rfl⟩
          exact .run (by simp) (List.forall_mem_cons.mpr ⟨kind, plain⟩)

theorem exists_groupsOf (script : List Char) : ∃ groups, GroupsOf script groups := by
  obtain ⟨ls, tail, cut⟩ := exists_cutAt script
  obtain ⟨groups, grouped, whole⟩ := exists_wellGrouped (lines script)
  exact ⟨groups, grouped, ls, tail, cut, by rw [whole, cut.lines_eq]⟩

theorem GroupsOf.lines_eq (grouped : GroupsOf script groups) :
    lines script = groups.flatMap Group.lines := by
  obtain ⟨ls, tail, cut, whole⟩ := grouped.cut
  rw [whole, cut.lines_eq]

theorem program_reverse (code : List (List Char)) :
    program code.reverse = (Group.run code).chunks := by
  simp only [program, Group.chunks, List.reverse_reverse, all_isBlank_unlines]

theorem chunksAfter_run (plain : ∀ line ∈ code, isCommandLine line = false)
    (ended : ∀ line, rest.head? = some line → isCommandLine line = true) :
    chunksAfter [] (code ++ rest) = (Group.run code).chunks ++ chunksAfter [] rest := by
  have alone : chunksAfter [] code = (Group.run code).chunks := by
    rw [chunksAfter_of_plain plain, List.append_nil, program_reverse]
  cases rest with
  | nil =>
    have none : chunksAfter [] [] = [] := rfl
    rw [List.append_nil, alone, none, List.append_nil]
  | cons line rest =>
    have command := ended line rfl
    rw [chunksAfter_append command, chunksAfter_command command, alone]
    rfl

theorem WellGrouped.ended (grouped : WellGrouped (.run code :: groups)) :
    ∀ line, (groups.flatMap Group.lines).head? = some line → isCommandLine line = true := by
  obtain ⟨_, others, front⟩ := wellGrouped_cons_iff.mp grouped
  intro line found
  match groups, others with
  | [], _ => cases found
  | .run code :: groups, _ => exact absurd (front _ rfl) (by simp [Group.isRun])
  | .command later :: groups, others =>
    obtain ⟨formed, _⟩ := wellGrouped_cons_iff.mp others
    cases formed with
    | command command =>
      have same : later = line := Option.some.inj found
      rw [← same]
      exact command

theorem chunksAfter_groups (grouped : WellGrouped groups) :
    chunksAfter [] (groups.flatMap Group.lines) = groups.flatMap Group.chunks := by
  induction groups with
  | nil => rfl
  | cons group groups ih =>
    obtain ⟨formed, others, _⟩ := wellGrouped_cons_iff.mp grouped
    rw [List.flatMap_cons, List.flatMap_cons, ← ih others]
    cases formed with
    | command command => exact chunksAfter_command command [] _
    | run _ plain => exact chunksAfter_run plain grouped.ended

theorem GroupsOf.chunks_eq (grouped : GroupsOf script groups) :
    chunks script = groups.flatMap Group.chunks := by
  rw [chunks, grouped.lines_eq, chunksAfter_groups grouped.toWellGrouped]

theorem visible_chunks (script : List Char) : visible (chunks script).flatten = visible script := by
  obtain ⟨groups, grouped⟩ := exists_groupsOf script
  calc
    visible (chunks script).flatten = groups.flatMap fun group => group.chunks.flatMap visible := by
      rw [visible_flatten, grouped.chunks_eq, List.flatMap_assoc]
    _ = groups.flatMap fun group => group.lines.flatMap visible := by
      simp only [Group.visible_chunks]
    _ = (lines script).flatMap visible := by rw [grouped.lines_eq, List.flatMap_assoc]
    _ = visible script := flatMap_visible_lines script

theorem apart_program_append
    (ended : ∀ next, rest.head? = some next → isCommandLine next = true)
    (apart : Apart (!isCommandLine ·) rest) (pending : List (List Char)) :
    Apart (!isCommandLine ·) (program pending ++ rest) := by
  unfold program
  simp only
  split
  · exact apart
  · refine apart_cons_iff.mpr ⟨?_, apart⟩
    intro next found
    exact .inr (by rw [ended next found]; rfl)

theorem apart_chunksAfter (pending ls : List (List Char)) :
    Apart (!isCommandLine ·) (chunksAfter pending ls) := by
  induction ls generalizing pending with
  | nil =>
    have alone := apart_program_append (by simp) apart_nil pending
    rwa [List.append_nil] at alone
  | cons line ls ih =>
    cases kind : isCommandLine line with
    | false =>
      rw [chunksAfter_plain kind]
      exact ih (line :: pending)
    | true =>
      have command : isCommandLine (trim line) = true := by rw [isCommandLine_trim, kind]
      rw [chunksAfter_command kind]
      refine apart_program_append ?ended ?apart pending
      case ended =>
        intro next found
        rw [← Option.some.inj found]
        exact command
      case apart => exact apart_cons (by rw [command]; rfl) (ih [])

/-- A script is cut into the chunks of its groups, which keep everything visible in order. -/
theorem chunks_regroup_lines (script : List Char) :
    (∃ groups, GroupsOf script groups) ∧
      (∀ groups, GroupsOf script groups → chunks script = groups.flatMap Group.chunks) ∧
      Apart (!isCommandLine ·) (chunks script) ∧
      visible (chunks script).flatten = visible script :=
  ⟨exists_groupsOf script, fun _ grouped => grouped.chunks_eq, apart_chunksAfter [] _,
    visible_chunks script⟩

/-- A blank run between two commands, and a run that is pending at the end. -/
theorem chunks_regroup_blank_run :
    GroupsOf ":a\r\n \n\t:b \n+\r\r\n-\r".toList
        [.command ":a".toList, .run [" ".toList], .command "\t:b ".toList,
          .run ["+\r".toList, "-\r".toList]] ∧
      chunks ":a\r\n \n\t:b \n+\r\r\n-\r".toList =
        [":a".toList, ":b".toList, "+\r\n-\r\n".toList] := by
  have last : WellGrouped [.run ["+\r".toList, "-\r".toList]] :=
    wellGrouped_cons_iff.mpr ⟨.run (by decide) (by decide), wellGrouped_nil, by simp⟩
  have fromBlank : WellGrouped [.run [" ".toList], .command "\t:b ".toList,
      .run ["+\r".toList, "-\r".toList]] := by
    refine wellGrouped_cons_iff.mpr ⟨.run (by decide) (by decide), ?_, by simp [Group.isRun]⟩
    exact wellGrouped_cons_iff.mpr ⟨.command (by decide), last, fun _ _ => .inl rfl⟩
  have grouped : GroupsOf ":a\r\n \n\t:b \n+\r\r\n-\r".toList
      [.command ":a".toList, .run [" ".toList], .command "\t:b ".toList,
        .run ["+\r".toList, "-\r".toList]] := by
    refine ⟨?grouped, ?cut⟩
    case grouped =>
      exact wellGrouped_cons_iff.mpr ⟨.command (by decide), fromBlank, fun _ _ => .inl rfl⟩
    case cut =>
      exact ⟨[":a\r".toList, " ".toList, "\t:b ".toList, "+\r\r".toList], "-\r".toList,
        ⟨by decide, by decide, by decide⟩, by decide⟩
  obtain ⟨_, regroup, _⟩ := chunks_regroup_lines ":a\r\n \n\t:b \n+\r\r\n-\r".toList
  exact ⟨grouped, (regroup _ grouped).trans (by decide)⟩

end TapeMachine.Script
