import TapeMachine.Proofs.Source.Partners
import TapeMachine.Proofs.Source.Stripped

/-
What becomes of every program text. Stripped code is accepted if it has no comment marker and as
many opening as closing brackets. Otherwise it is rejected for its first marker, whatever its
brackets are, or else for the first bracket that has no partner.
-/
namespace TapeMachine.Source

variable {source code : List Char} {i : Nat}

def MarkerAt (code : List Char) (i : Nat) : Prop :=
  ['/', '*'] <+: code.drop i ∨ ['*', '/'] <+: code.drop i

theorem pair_prefix_cons_iff {a b c : Char} {cs : List Char} :
    [a, b] <+: c :: cs ↔ c = a ∧ cs.head? = some b := by
  cases cs <;> simp [List.cons_prefix_cons, eq_comm]

theorem startsWithMarker_iff {s : List Char} :
    startsWithMarker s = true ↔ ['/', '*'] <+: s ∨ ['*', '/'] <+: s := by
  cases s with
  | nil => simp [startsWithMarker]
  | cons c cs => rw [startsWithMarker_cons_iff, pair_prefix_cons_iff, pair_prefix_cons_iff]

theorem markerAt_zero_iff : MarkerAt code 0 ↔ startsWithMarker code = true :=
  startsWithMarker_iff.symm

theorem marker?_eq_some_iff :
    marker? code = some i ↔ MarkerAt code i ∧ ∀ j < i, ¬ MarkerAt code j := by
  induction code generalizing i with
  | nil => simp [marker?, MarkerAt]
  | cons c cs ih =>
    have later (j : Nat) : MarkerAt (c :: cs) (j + 1) ↔ MarkerAt cs j := Iff.rfl
    cases here : startsWithMarker (c :: cs) with
    | true =>
      have first : MarkerAt (c :: cs) 0 := markerAt_zero_iff.mpr here
      rw [marker?, if_pos here, Option.some.injEq]
      constructor
      · rintro rfl
        exact ⟨first, fun j before => absurd before (Nat.not_lt_zero j)⟩
      · rintro ⟨_, none⟩
        exact (Nat.eq_zero_of_not_pos fun beyond => none 0 beyond first).symm
    | false =>
      have first : ¬ MarkerAt (c :: cs) 0 := by simp [markerAt_zero_iff, here]
      rw [marker?, here, if_neg Bool.false_ne_true]
      cases i with
      | zero => simp [first]
      | succ i =>
        have shifted : (∀ j < i + 1, ¬ MarkerAt (c :: cs) j) ↔ ∀ j < i, ¬ MarkerAt cs j := by
          rw [Nat.forall_lt_succ_left', and_iff_right first]
          exact Iff.rfl
        simp only [Option.map_eq_some_iff, Nat.add_right_cancel_iff, exists_eq_right, ih, later,
          shifted]

namespace Pairing

theorem firstUnpaired_le {x : Nat} (found : (scan code).firstUnpaired? = some i)
    (unpaired : x ∈ (scan code).pending ∨ x ∈ (scan code).stray) : i ≤ x := by
  obtain ⟨pending, stray⟩ := descending_scan code
  unfold firstUnpaired? at found
  split at found
  · cases found
  · split at found
    · rename_i opening closing lastOpening lastClosing
      cases found
      rcases unpaired with member | member
      · exact Nat.le_trans (Nat.min_le_left _ _) (le_of_getLast pending lastOpening member)
      · exact Nat.le_trans (Nat.min_le_right _ _) (le_of_getLast stray lastClosing member)
    · rename_i lastOpening none
      cases found
      rw [List.getLast?_eq_none_iff.mp none] at unpaired
      exact le_of_getLast pending lastOpening (unpaired.resolve_right List.not_mem_nil)
    · rename_i none lastClosing
      cases found
      rw [List.getLast?_eq_none_iff.mp none] at unpaired
      exact le_of_getLast stray lastClosing (unpaired.resolve_left List.not_mem_nil)
    · cases found

theorem first_of_firstUnpaired (found : (scan code).firstUnpaired? = some i) :
    IsBracket code i ∧ ¬ HasPartner code i ∧ ∀ j < i, IsBracket code j → HasPartner code j := by
  obtain ⟨unpaired, _⟩ := unpaired_of_firstUnpaired found
  obtain ⟨bracket, alone⟩ := (mem_scan_iff code i).mp unpaired
  refine ⟨bracket, alone, ?_⟩
  intro j before bracket'
  apply Classical.byContradiction
  intro alone'
  have earlier := (mem_scan_iff code j).mpr ⟨bracket', alone'⟩
  exact Nat.not_le_of_lt before (firstUnpaired_le found earlier)

end Pairing

/-- Every stripped program is accepted unless a comment marker is left in it or the numbers of its
brackets differ. A marker is reported before brackets are looked at, and of the brackets the first
one that has no partner. -/
theorem sanitize_verdict (stripped : strip source = code) :
    (sanitize source = .ok code ↔
      ¬ ['/', '*'] <:+: code ∧ ¬ ['*', '/'] <:+: code ∧ code.count '[' = code.count ']') ∧
    (['/', '*'] <:+: code ∨ ['*', '/'] <:+: code →
      ∃ i, MarkerAt code i ∧ (∀ j < i, ¬ MarkerAt code j) ∧
        sanitize source = .error (.located (i + 1) .unendedComment)) ∧
    (¬ ['/', '*'] <:+: code → ¬ ['*', '/'] <:+: code → code.count '[' ≠ code.count ']' →
      ∃ i, IsBracket code i ∧ ¬ HasPartner code i ∧
        (∀ j < i, IsBracket code j → HasPartner code j) ∧
        sanitize source = .error (.located (i + 1) .unterminatedLoops)) := by
  refine ⟨?accepted, ?marker, ?bracket⟩
  case accepted =>
    rw [sanitize_eq_ok_iff, defect?_eq_none_iff, marker?_eq_none_iff, Pairing.scan_balanced_iff,
      and_iff_right stripped, and_assoc]
  case marker =>
    intro marked
    cases found : marker? code with
    | none =>
      obtain ⟨opening, closing⟩ := marker?_eq_none_iff.mp found
      exact absurd marked (not_or.mpr ⟨opening, closing⟩)
    | some i =>
      obtain ⟨here, first⟩ := marker?_eq_some_iff.mp found
      refine ⟨i, here, first, sanitize_eq_error_iff.mpr ⟨_, _, ?_, rfl⟩⟩
      rw [stripped]
      exact defect?_eq_some_iff.mpr (.inl ⟨i, found, rfl, rfl⟩)
  case bracket =>
    intro opening closing differ
    have unmarked := marker?_eq_none_iff.mpr ⟨opening, closing⟩
    cases found : (Pairing.scan code).firstUnpaired? with
    | none =>
      have same := Pairing.firstUnpaired?_eq_none_iff.mp found
      exact absurd (Pairing.scan_balanced_iff.mp same) differ
    | some i =>
      obtain ⟨bracket, alone, first⟩ := Pairing.first_of_firstUnpaired found
      refine ⟨i, bracket, alone, first, sanitize_eq_error_iff.mpr ⟨_, _, ?_, rfl⟩⟩
      rw [stripped]
      exact defect?_eq_some_iff.mpr (.inr ⟨unmarked, i, found, rfl, rfl⟩)

/-- Brackets in the wrong order but of equal number, a marker behind a stray bracket, and a stray
bracket before two open ones. -/
theorem sanitize_verdict_on_misordered_brackets :
    sanitize ['/', '/', '[', '\n', ']', '+', '['] = .ok [']', '+', '['] ∧
    (∃ i, MarkerAt [']', '+', '*', '/'] i ∧
      sanitize [']', '+', '*', ' ', '/'] = .error (.located (i + 1) .unendedComment)) ∧
    (IsBracket ['[', ']', ']', '[', '['] 2 ∧ ¬ HasPartner ['[', ']', ']', '[', '['] 2 ∧
      HasPartner ['[', ']', ']', '[', '['] 1 ∧
      sanitize ['[', '/', '*', ']', '*', '/', ']', ']', ' ', '[', '['] =
        .error (.located 3 .unterminatedLoops)) := by
  have first : strip ['/', '/', '[', '\n', ']', '+', '['] = [']', '+', '['] := by
    decide +kernel
  have second : strip [']', '+', '*', ' ', '/'] = [']', '+', '*', '/'] := by
    decide +kernel
  have third : strip ['[', '/', '*', ']', '*', '/', ']', ']', ' ', '[', '['] =
      ['[', ']', ']', '[', '['] := by
    decide +kernel
  refine ⟨?_, ?_, ?_⟩
  · exact (sanitize_verdict first).1.mpr
      ⟨no_pair_of_absent (by decide), no_pair_of_absent (by decide), by decide⟩
  · obtain ⟨i, here, _, rejected⟩ := (sanitize_verdict second).2.1 (.inr ⟨[']', '+'], [], rfl⟩)
    exact ⟨i, here, rejected⟩
  · obtain ⟨i, bracket, alone, before, rejected⟩ := (sanitize_verdict third).2.2
      (no_pair_of_absent (by decide)) (no_pair_of_absent (by decide)) (by decide)
    have found : sanitize ['[', '/', '*', ']', '*', '/', ']', ']', ' ', '[', '['] =
        .error (.located 3 .unterminatedLoops) := by
      refine sanitize_eq_error_iff.mpr ⟨_, _, ?_, rfl⟩
      rw [third]
      rfl
    rw [found] at rejected
    cases rejected
    exact ⟨bracket, alone, before 1 (by decide) (.inr rfl), found⟩

end TapeMachine.Source
