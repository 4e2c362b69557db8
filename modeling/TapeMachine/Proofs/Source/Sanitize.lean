import TapeMachine.Source

/-
What is accepted and why the rest is rejected: stripped code is accepted if no comment marker is
left in it and as many brackets of either kind lack a partner; a marker is reported before brackets.
-/
namespace TapeMachine.Source

theorem Pairing.firstUnpaired?_eq_none_iff {p : Pairing} :
    p.firstUnpaired? = none ↔ p.pending.length = p.stray.length := by
  unfold firstUnpaired?
  split
  · simp_all
  · rename_i differ
    cases pending : p.pending.getLast? <;> cases stray : p.stray.getLast? <;> simp_all

theorem Pairing.unpaired_of_firstUnpaired {p : Pairing} {index : Nat}
    (first : p.firstUnpaired? = some index) :
    (index ∈ p.pending ∨ index ∈ p.stray) ∧ p.pending.length ≠ p.stray.length := by
  unfold firstUnpaired? at first
  split at first
  · cases first
  · rename_i differ
    refine ⟨?_, differ⟩
    split at first
    · rename_i opening closing lastOpening lastClosing
      cases first
      rcases Nat.le_total opening closing with less | less
      · rw [Nat.min_eq_left less]
        exact .inl (List.mem_of_getLast? lastOpening)
      · rw [Nat.min_eq_right less]
        exact .inr (List.mem_of_getLast? lastClosing)
    · rename_i last _
      cases first
      exact .inl (List.mem_of_getLast? last)
    · rename_i _ last
      cases first
      exact .inr (List.mem_of_getLast? last)
    · cases first

theorem startsWithMarker_of_marker {code : List Char} {index : Nat}
    (found : marker? code = some index) : startsWithMarker (code.drop index) = true := by
  induction code generalizing index with
  | nil => cases found
  | cons c cs ih =>
    rw [marker?] at found
    split at found
    · cases found
      assumption
    · obtain ⟨before, earlier, rfl⟩ := Option.map_eq_some_iff.mp found
      exact ih earlier

variable {source code : List Char} {fault : Fault}

theorem defect?_eq_none_iff :
    defect? code = none ↔
      marker? code = none ∧
        (Pairing.scan code).pending.length = (Pairing.scan code).stray.length := by
  unfold defect?
  rw [← Pairing.firstUnpaired?_eq_none_iff]
  cases marker? code <;> simp

theorem defect?_eq_some_iff {position : Nat} {cause : Cause} :
    defect? code = some (position, cause) ↔
      (∃ index, marker? code = some index ∧ position = index + 1 ∧ cause = .unendedComment) ∨
        (marker? code = none ∧ ∃ index, (Pairing.scan code).firstUnpaired? = some index ∧
          position = index + 1 ∧ cause = .unterminatedLoops) := by
  unfold defect?
  cases marker? code with
  | some index => simp [eq_comm]
  | none =>
    cases (Pairing.scan code).firstUnpaired? with
    | some index => simp [eq_comm]
    | none => simp

theorem sanitize_eq_ok_iff :
    sanitize source = .ok code ↔ strip source = code ∧ defect? code = none := by
  unfold sanitize
  constructor
  · intro accepted
    cases defect : defect? (strip source) with
    | some found => simp [defect] at accepted
    | none =>
      simp only [defect, Except.ok.injEq] at accepted
      subst accepted
      exact ⟨rfl, defect⟩
  · intro accepted
    obtain ⟨rfl, sound⟩ := accepted
    simp [sound]

theorem sanitize_eq_error_iff :
    sanitize source = .error fault ↔
      ∃ position cause, defect? (strip source) = some (position, cause) ∧
        fault = .located position cause := by
  cases defect : defect? (strip source) with
  | none => simp [sanitize, defect]
  | some found =>
    obtain ⟨position, cause⟩ := found
    simp only [sanitize, defect, Except.error.injEq, Option.some.injEq, Prod.mk.injEq]
    constructor
    · rintro rfl
      exact ⟨position, cause, ⟨rfl, rfl⟩, rfl⟩
    · rintro ⟨_, _, ⟨rfl, rfl⟩, rfl⟩
      rfl

end TapeMachine.Source
