import TapeMachine.Proofs.Source.Pairing

/-
The pairing scan and partners. What stands between partners leaves a scan as it was, so the scan
finds every pair there is: the brackets it leaves unpaired are those that have no partner anywhere
in the code. It lists them from the last one back.
-/
namespace TapeMachine.Source

def IsBracket (code : List Char) (i : Nat) : Prop := code[i]? = some '[' ∨ code[i]? = some ']'

def HasPartner (code : List Char) (i : Nat) : Prop := ∃ j, Partners code i j ∨ Partners code j i

namespace Pairing

variable {code body : List Char} {i j n index : Nat} {p : Pairing}

theorem scanFrom_above {above : List Nat} {e : Nat} (deep : depth? above.length body = some e)
    (index : Nat) :
    ∃ left, left.length = e ∧ ∀ base stray,
      scanFrom ⟨above ++ base, stray⟩ index body = ⟨left ++ base, stray⟩ := by
  induction body generalizing above index with
  | nil => exact ⟨above, by simpa [depth?] using deep, fun base stray => rfl⟩
  | cons c cs ih =>
    by_cases opening : c = '['
    · subst opening
      have deeper : depth? (index :: above).length cs = some e := deep
      exact ih deeper (index + 1)
    · by_cases closing : c = ']'
      · subst closing
        cases above with
        | nil => cases deep
        | cons innermost outer =>
          have shallower : depth? outer.length cs = some e := deep
          exact ih shallower (index + 1)
      · rw [depth?_plain opening closing] at deep
        obtain ⟨left, length, same⟩ := ih deep (index + 1)
        refine ⟨left, length, fun base stray => ?_⟩
        rw [scanFrom, step_plain opening closing]
        exact same base stray

theorem scanFrom_wellNested (nested : WellNested body) (p : Pairing) (index : Nat) :
    p.scanFrom index body = p := by
  have deep : depth? ([] : List Nat).length body = some 0 := wellNested_iff_depth.mp nested
  obtain ⟨left, length, same⟩ := scanFrom_above deep index
  rw [List.length_eq_zero_iff] at length
  subst length
  exact same p.pending p.stray

/-- At a closing bracket its partner is the innermost pending one. -/
theorem partners_iff :
    Partners code i j ↔
      code[j]? = some ']' ∧ ∃ outer, (scan (code.take j)).pending = i :: outer := by
  constructor
  · intro partners
    obtain ⟨opening, closing, ordered, nested⟩ := partners
    have here : (code.take j)[i]? = some '[' := by
      rw [List.getElem?_take_of_lt ordered, opening]
    have length : ((code.take j).take i).length = i := by
      have := (List.getElem?_eq_some_iff.mp here).1
      rw [List.length_take]
      omega
    refine ⟨closing, (scan ((code.take j).take i)).pending, ?_⟩
    rw [eq_take_cons_drop here, scan_append, length, scanFrom, step_opening,
      scanFrom_wellNested nested, ← eq_take_cons_drop here]
  · rintro ⟨closing, outer, pending⟩
    exact (partners_of_pending pending closing).1

theorem lt_of_mem_pending_take (member : i ∈ (scan (code.take n)).pending) : i < n := by
  have found := (bracket_of_mem_scan (code.take n) i).1 member
  have inside := (List.getElem?_eq_some_iff.mp found).1
  rw [List.length_take] at inside
  omega

/-- Up to here the pending and the stray brackets are those that have found no partner. -/
structure Exact (code : List Char) (n : Nat) (p : Pairing) : Prop where
  mem_pending_iff : ∀ i, i ∈ p.pending ↔
    i < n ∧ code[i]? = some '[' ∧ ∀ j, j < n → ¬ Partners code i j
  mem_stray_iff : ∀ j, j ∈ p.stray ↔ j < n ∧ code[j]? = some ']' ∧ ∀ i, ¬ Partners code i j

theorem Exact.opening (before : Exact code n p) (found : code[n]? = some '[') :
    Exact code (n + 1) (p.step n '[') := by
  have alone (i : Nat) : ¬ Partners code i n := by
    intro partners
    rw [partners.closing] at found
    cases found
  have later (j : Nat) (partners : Partners code n j) : n < j := partners.ordered
  have pending := before.mem_pending_iff
  have stray := before.mem_stray_iff
  rw [step_opening]
  constructor <;> grind only [= List.mem_cons]

theorem Exact.paired {opening : Nat} {outer : List Nat} (before : Exact code n p)
    (found : code[n]? = some ']') (inside : p.pending = opening :: outer)
    (once : opening ∉ outer) (partner : ∀ i, Partners code i n ↔ i = opening) :
    Exact code (n + 1) (p.step n ']') := by
  have here : Partners code opening n := (partner opening).mpr rfl
  have pending := before.mem_pending_iff
  have stray := before.mem_stray_iff
  rw [step_closing inside]
  constructor <;> grind only [= List.mem_cons]

theorem Exact.unpaired (before : Exact code n p) (found : code[n]? = some ']')
    (outside : p.pending = []) (alone : ∀ i, ¬ Partners code i n) :
    Exact code (n + 1) (p.step n ']') := by
  have pending := before.mem_pending_iff
  have stray := before.mem_stray_iff
  rw [step_stray outside]
  constructor <;> grind only [= List.mem_cons]

theorem Exact.plain {c : Char} (before : Exact code n p) (found : code[n]? = some c)
    (opening : c ≠ '[') (closing : c ≠ ']') : Exact code (n + 1) (p.step n c) := by
  have alone (i : Nat) : ¬ Partners code i n := by
    intro partners
    rw [partners.closing] at found
    exact closing (Option.some.inj found).symm
  have pending := before.mem_pending_iff
  have stray := before.mem_stray_iff
  rw [step_plain opening closing]
  constructor <;> grind only [= List.mem_cons]

theorem exact_scan_take (inside : n ≤ code.length) : Exact code n (scan (code.take n)) := by
  induction n with
  | zero => exact ⟨by simp [scan, scanFrom], by simp [scan, scanFrom]⟩
  | succ n ih =>
    have before := ih (Nat.le_of_succ_le inside)
    have found : code[n]? = some code[n] := List.getElem?_eq_getElem inside
    generalize code[n] = c at found
    rw [scan_take_succ found]
    by_cases opening : c = '['
    · subst opening
      exact before.opening found
    by_cases closing : c = ']'
    · subst closing
      have partner (i : Nat) : Partners code i n ↔
          ∃ outer, (scan (code.take n)).pending = i :: outer := by
        rw [partners_iff]
        exact and_iff_right found
      cases pending : (scan (code.take n)).pending with
      | nil => exact before.unpaired found pending (by simp [partner, pending])
      | cons innermost outer =>
        refine before.paired found pending ?_ (by simp [partner, pending, eq_comm])
        -- What is further out was opened earlier.
        have further := (partners_of_pending pending found).2
        intro again
        rw [← further] at again
        exact absurd (lt_of_mem_pending_take again) (Nat.lt_irrefl innermost)
    · exact before.plain found opening closing

theorem mem_scan_iff (code : List Char) (i : Nat) :
    i ∈ (scan code).pending ∨ i ∈ (scan code).stray ↔ IsBracket code i ∧ ¬ HasPartner code i := by
  have exact := exact_scan_take (Nat.le_refl code.length)
  rw [List.take_length] at exact
  have inside (j : Nat) (partners : Partners code i j) : j < code.length :=
    (List.getElem?_eq_some_iff.mp partners.closing).1
  rw [exact.mem_pending_iff, exact.mem_stray_iff]
  constructor
  · rintro (⟨_, opening, alone⟩ | ⟨_, closing, alone⟩)
    · refine ⟨.inl opening, ?_⟩
      rintro ⟨j, partners | partners⟩
      · exact alone j (inside j partners) partners
      · rw [partners.closing] at opening
        cases opening
    · refine ⟨.inr closing, ?_⟩
      rintro ⟨j, partners | partners⟩
      · rw [partners.opening] at closing
        cases closing
      · exact alone j partners
  · rintro ⟨opening | closing, alone⟩
    · have here := (List.getElem?_eq_some_iff.mp opening).1
      exact .inl ⟨here, opening, fun j _ partners => alone ⟨j, .inl partners⟩⟩
    · have here := (List.getElem?_eq_some_iff.mp closing).1
      exact .inr ⟨here, closing, fun j partners => alone ⟨j, .inr partners⟩⟩

structure Descending (p : Pairing) (index : Nat) : Prop where
  pending : (index :: p.pending).Pairwise (· > ·)
  stray : (index :: p.stray).Pairwise (· > ·)

theorem descending_next {positions : List Nat} (before : (index :: positions).Pairwise (· > ·)) :
    ((index + 1) :: index :: positions).Pairwise (· > ·) := by
  refine List.pairwise_cons.mpr ⟨?_, before⟩
  intro x member
  rcases List.mem_cons.mp member with rfl | earlier
  · exact Nat.lt_succ_self x
  · exact Nat.lt_succ_of_lt (List.rel_of_pairwise_cons before earlier)

theorem Descending.step (before : p.Descending index) (c : Char) :
    (p.step index c).Descending (index + 1) := by
  have pending := descending_next before.pending
  have stray := descending_next before.stray
  have kept := pending.sublist ((List.sublist_cons_self index p.pending).cons_cons (index + 1))
  have kept' := stray.sublist ((List.sublist_cons_self index p.stray).cons_cons (index + 1))
  by_cases opening : c = '['
  · subst opening
    exact ⟨pending, kept'⟩
  by_cases closing : c = ']'
  · subst closing
    cases inside : p.pending with
    | nil =>
      rw [step_stray inside]
      exact ⟨kept, stray⟩
    | cons innermost outer =>
      rw [step_closing inside]
      rw [inside] at kept
      exact ⟨kept.sublist ((List.sublist_cons_self innermost outer).cons_cons (index + 1)), kept'⟩
  · rw [step_plain opening closing]
    exact ⟨kept, kept'⟩

theorem Descending.scanFrom (before : p.Descending index) (code : List Char) :
    (p.scanFrom index code).Descending (index + code.length) := by
  induction code generalizing p index with
  | nil => exact before
  | cons c cs ih =>
    have rest := ih (before.step c)
    rwa [Nat.add_right_comm, Nat.add_assoc] at rest

theorem descending_scan (code : List Char) : (scan code).Descending code.length := by
  have first : Descending {} 0 := ⟨by simp, by simp⟩
  have whole := first.scanFrom code
  rwa [Nat.zero_add] at whole

theorem le_of_getLast {positions : List Nat} {last x : Nat}
    (descending : (index :: positions).Pairwise (· > ·)) (found : positions.getLast? = some last)
    (member : x ∈ positions) : last ≤ x := by
  obtain ⟨front, rfl⟩ := List.getLast?_eq_some_iff.mp found
  have apart := (List.pairwise_append.mp (List.pairwise_cons.mp descending).2).2.2
  rcases List.mem_append.mp member with earlier | same
  · exact Nat.le_of_lt (apart x earlier last (List.mem_singleton_self last))
  · exact Nat.le_of_eq (List.mem_singleton.mp same).symm

end Pairing

end TapeMachine.Source
