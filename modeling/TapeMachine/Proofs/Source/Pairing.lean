import TapeMachine.Proofs.Source.Nesting
import TapeMachine.Source.Bracket

/-
What the pairing scan finds. The innermost pending bracket is followed by well nested text only, so
a closing bracket that comes next is its partner; the first stray bracket is the one that follows a
well nested front. Strays stay strays: the rest of a text only adds later ones.
-/
namespace TapeMachine.Source

/-- An opening and a closing bracket with nothing but complete loops between them. -/
structure Partners (code : List Char) (i j : Nat) : Prop where
  opening : code[i]? = some '['
  closing : code[j]? = some ']'
  ordered : i < j
  nested : WellNested ((code.take j).drop (i + 1))

def firstStray? (code : List Char) : Option Nat := (Pairing.scan code).stray.getLast?

theorem eq_take_cons_drop {code : List Char} {i : Nat} {c : Char} (found : code[i]? = some c) :
    code = code.take i ++ c :: code.drop (i + 1) := by
  obtain ⟨inside, rfl⟩ := List.getElem?_eq_some_iff.mp found
  rw [← List.drop_eq_getElem_cons inside, List.take_append_drop]

namespace Pairing

theorem step_opening (p : Pairing) (index : Nat) :
    p.step index '[' = { p with pending := index :: p.pending } := rfl

theorem step_stray {p : Pairing} (outside : p.pending = []) (index : Nat) :
    p.step index ']' = { p with stray := index :: p.stray } := by
  simp [step, outside]

theorem step_closing {p : Pairing} {opening : Nat} {outer : List Nat}
    (inside : p.pending = opening :: outer) (index : Nat) :
    p.step index ']' = { p with pending := outer } := by
  simp [step, inside]

theorem step_plain {c : Char} (opening : c ≠ '[') (closing : c ≠ ']') (p : Pairing)
    (index : Nat) : p.step index c = p := by
  simp [step, opening, closing]

theorem length_step (p : Pairing) (index : Nat) (c : Char) :
    (p.step index c).pending.length + p.stray.length + [c].count ']' =
      (p.step index c).stray.length + p.pending.length + [c].count '[' := by
  by_cases opening : c = '['
  · subst opening
    simp [step_opening]
    omega
  by_cases closing : c = ']'
  · subst closing
    cases inside : p.pending with
    | nil => simp [step_stray inside, inside]
    | cons innermost outer =>
      simp [step_closing inside]
      omega
  · simp [step_plain opening closing, opening, closing]
    omega

theorem length_scanFrom (p : Pairing) (index : Nat) (code : List Char) :
    (p.scanFrom index code).pending.length + p.stray.length + code.count ']' =
      (p.scanFrom index code).stray.length + p.pending.length + code.count '[' := by
  induction code generalizing p index with
  | nil =>
    simp only [scanFrom, List.count_nil]
    omega
  | cons c cs ih =>
    have first := length_step p index c
    have rest := ih (p.step index c) (index + 1)
    rw [scanFrom, ← List.singleton_append, List.count_append, List.count_append]
    omega

theorem scan_balanced_iff {code : List Char} :
    (scan code).pending.length = (scan code).stray.length ↔ code.count '[' = code.count ']' := by
  have lengths := length_scanFrom {} 0 code
  simp only [scan, List.length_nil, Nat.add_zero] at lengths ⊢
  omega

theorem scan_snoc (code : List Char) (c : Char) :
    scan (code ++ [c]) = (scan code).step code.length c := by
  simp [scan, scanFrom_append, scanFrom]

theorem scan_append (a b : List Char) : scan (a ++ b) = (scan a).scanFrom a.length b := by
  rw [scan, scanFrom_append, Nat.zero_add]
  rfl

theorem scan_take_succ {code : List Char} {i : Nat} {c : Char} (found : code[i]? = some c) :
    scan (code.take (i + 1)) = (scan (code.take i)).step i c := by
  have inside : i < code.length := (List.getElem?_eq_some_iff.mp found).1
  have length : (code.take i).length = i := by simp; omega
  rw [List.take_add_one, found, Option.toList_some, scan_snoc, length]

theorem stray_step {p : Pairing} {c : Char} (paired : ¬ (c = ']' ∧ p.pending = [])) (index : Nat) :
    (p.step index c).stray = p.stray := by
  unfold step
  grind

theorem stray_scanFrom (p : Pairing) (index : Nat) (code : List Char) :
    ∃ later, (p.scanFrom index code).stray = later ++ p.stray ∧ ∀ x ∈ later, index ≤ x := by
  induction code generalizing p index with
  | nil => exact ⟨[], rfl, by simp⟩
  | cons c cs ih =>
    obtain ⟨later, same, beyond⟩ := ih (p.step index c) (index + 1)
    have beyond' : ∀ x ∈ later, index ≤ x := fun x member => Nat.le_of_succ_le (beyond x member)
    by_cases stray : c = ']' ∧ p.pending = []
    · obtain ⟨rfl, outside⟩ := stray
      refine ⟨later ++ [index], ?_, ?_⟩
      · rw [scanFrom, same, step_stray outside]
        simp
      · simpa [or_imp, forall_and] using beyond'
    · refine ⟨later, ?_, beyond'⟩
      rw [scanFrom, same, stray_step stray]

theorem mem_pending_step {p : Pairing} {index x : Nat} {c : Char}
    (member : x ∈ (p.step index c).pending) : x ∈ p.pending ∨ (x = index ∧ c = '[') := by
  unfold step at member
  grind

theorem mem_stray_step {p : Pairing} {index x : Nat} {c : Char}
    (member : x ∈ (p.step index c).stray) : x ∈ p.stray ∨ (x = index ∧ c = ']') := by
  unfold step at member
  grind

theorem mem_pending_scanFrom {p : Pairing} {index x : Nat} {code : List Char}
    (member : x ∈ (p.scanFrom index code).pending) :
    x ∈ p.pending ∨ ∃ j, x = index + j ∧ code[j]? = some '[' := by
  induction code generalizing p index with
  | nil => exact .inl member
  | cons c cs ih =>
    rcases ih member with first | ⟨j, rfl, found⟩
    · rcases mem_pending_step first with old | ⟨rfl, rfl⟩
      · exact .inl old
      · exact .inr ⟨0, rfl, rfl⟩
    · exact .inr ⟨j + 1, by omega, found⟩

theorem mem_stray_scanFrom {p : Pairing} {index x : Nat} {code : List Char}
    (member : x ∈ (p.scanFrom index code).stray) :
    x ∈ p.stray ∨ ∃ j, x = index + j ∧ code[j]? = some ']' := by
  induction code generalizing p index with
  | nil => exact .inl member
  | cons c cs ih =>
    rcases ih member with first | ⟨j, rfl, found⟩
    · rcases mem_stray_step first with old | ⟨rfl, rfl⟩
      · exact .inl old
      · exact .inr ⟨0, rfl, rfl⟩
    · exact .inr ⟨j + 1, by omega, found⟩

theorem bracket_of_mem_scan (code : List Char) (i : Nat) :
    (i ∈ (scan code).pending → code[i]? = some '[') ∧
      (i ∈ (scan code).stray → code[i]? = some ']') := by
  constructor
  · intro member
    rcases mem_pending_scanFrom member with none | ⟨j, rfl, found⟩
    · cases none
    · rwa [Nat.zero_add]
  · intro member
    rcases mem_stray_scanFrom member with none | ⟨j, rfl, found⟩
    · cases none
    · rwa [Nat.zero_add]

theorem stray_take_of_le {code : List Char} {i j : Nat} (ordered : i ≤ j)
    (none : (scan (code.take j)).stray = []) : (scan (code.take i)).stray = [] := by
  obtain ⟨rest, split⟩ := List.take_prefix_take_left (l := code) ordered
  obtain ⟨later, same, _⟩ := stray_scanFrom (scan (code.take i)) (code.take i).length rest
  rw [← split, scan_append, same] at none
  exact (List.append_eq_nil_iff.mp none).2

theorem le_of_mem_stray {code : List Char} {i x : Nat} (none : (scan (code.take i)).stray = [])
    (member : x ∈ (scan code).stray) : i ≤ x := by
  rcases Nat.le_total i code.length with inside | beyond
  · have length : (code.take i).length = i := by simp; omega
    obtain ⟨later, same, bound⟩ := stray_scanFrom (scan (code.take i)) i (code.drop i)
    rw [← List.take_append_drop i code, scan_append, length, same, none,
      List.append_nil] at member
    exact bound x member
  · rw [List.take_of_length_le beyond] at none
    rw [none] at member
    cases member

theorem depth?_eq_some_iff_scanFrom (p : Pairing) (index e : Nat) (code : List Char) :
    depth? p.pending.length code = some e ↔
      (p.scanFrom index code).stray = p.stray ∧ (p.scanFrom index code).pending.length = e := by
  induction code generalizing p index with
  | nil => simp [depth?, scanFrom]
  | cons c cs ih =>
    rw [scanFrom]
    by_cases opening : c = '['
    · subst opening
      exact ih (p.step index '[') (index + 1)
    · by_cases closing : c = ']'
      · subst closing
        cases pending : p.pending with
        | nil =>
          obtain ⟨later, same, _⟩ := stray_scanFrom (p.step index ']') (index + 1) cs
          rw [same, step_stray pending]
          simp only [List.length_nil, depth?_stray, reduceCtorEq, false_iff, not_and]
          intro absurd
          have := congrArg List.length absurd
          simp at this
          omega
        | cons innermost outer =>
          rw [List.length_cons, depth?_closing, step_closing pending]
          exact ih { p with pending := outer } (index + 1)
      · rw [depth?_plain opening closing, step_plain opening closing]
        exact ih p (index + 1)

theorem scan_eq_empty_iff {code : List Char} : scan code = {} ↔ WellNested code := by
  rw [wellNested_iff_depth]
  have scanned : depth? 0 code = some 0 ↔
      (scan code).stray = [] ∧ (scan code).pending.length = 0 :=
    depth?_eq_some_iff_scanFrom {} 0 0 code
  rw [scanned]
  constructor
  · intro empty
    simp [empty]
  · intro closed
    obtain ⟨stray, pending⟩ := closed
    have parts : scan code = ⟨(scan code).pending, (scan code).stray⟩ := rfl
    rw [parts, List.length_eq_zero_iff.mp pending, stray]

theorem pending_eq_cons {code : List Char} {opening : Nat} {outer : List Nat}
    (pending : (scan code).pending = opening :: outer) :
    ∃ front body, code = front ++ '[' :: body ∧ front.length = opening ∧
      (scan front).pending = outer ∧ WellNested body := by
  induction size : code.length using Nat.strongRecOn generalizing code opening outer with
  | ind n ih =>
    rcases List.eq_nil_or_concat code with rfl | ⟨before, c, rfl⟩
    · cases pending
    · rw [List.concat_eq_append] at pending size ⊢
      have shorter : before.length < n := by simp at size; omega
      rw [scan_snoc] at pending
      by_cases isOpening : c = '['
      · subst isOpening
        rw [step_opening] at pending
        injection pending with here rest
        exact ⟨before, [], rfl, here, rest, .nil⟩
      · by_cases isClosing : c = ']'
        · -- The loop just closed is complete, and what precedes it ends in the bracket we look for.
          subst isClosing
          cases inside : (scan before).pending with
          | nil => simp [step_stray inside, inside] at pending
          | cons innermost middle =>
            rw [step_closing inside] at pending
            obtain ⟨front, body, rfl, _, found, nested⟩ := ih _ shorter inside rfl
            have shortest : front.length < n := by simp at shorter; omega
            obtain ⟨front', body', rfl, here, rest, nested'⟩ :=
              ih _ shortest (found.trans pending) rfl
            refine ⟨front', body' ++ '[' :: (body ++ [']']), ?_, here, rest, ?_⟩
            · simp
            · exact nested'.append nested.loop
        · rw [step_plain isOpening isClosing] at pending
          obtain ⟨front, body, rfl, here, rest, nested⟩ := ih _ shorter pending rfl
          refine ⟨front, body ++ [c], ?_, here, rest, nested.append (.plain isOpening isClosing)⟩
          simp

theorem partners_of_pending {code : List Char} {i j : Nat} {outer : List Nat}
    (pending : (scan (code.take j)).pending = i :: outer) (closing : code[j]? = some ']') :
    Partners code i j ∧ (scan (code.take i)).pending = outer := by
  obtain ⟨front, body, split, rfl, found, nested⟩ := pending_eq_cons pending
  have inside : j < code.length := (List.getElem?_eq_some_iff.mp closing).1
  have length := congrArg List.length split
  simp only [List.length_take, List.length_append, List.length_cons] at length
  have ordered : front.length < j := by omega
  have opening : code[front.length]? = some '[' := by
    rw [← List.getElem?_take_of_lt ordered, split]
    simp
  have before : code.take front.length = front := by
    have shorter : (code.take j).take front.length = front := by simp [split]
    rwa [List.take_take, Nat.min_eq_left (Nat.le_of_lt ordered)] at shorter
  have between : (code.take j).drop (front.length + 1) = body := by simp [split]
  refine ⟨⟨opening, closing, ordered, ?_⟩, ?_⟩
  · rw [between]
    exact nested
  · rw [before]
    exact found

theorem getLast?_stray_scanFrom (p : Pairing) (index : Nat) {i : Nat} {code : List Char}
    (none : p.stray = []) (first : (p.scanFrom index code).stray.getLast? = some i) :
    ∃ j, i = index + j ∧ code[j]? = some ']' ∧ depth? p.pending.length (code.take j) = some 0 := by
  induction code generalizing p index with
  | nil => simp [scanFrom, none] at first
  | cons c cs ih =>
    rw [scanFrom] at first
    by_cases opening : c = '['
    · subst opening
      obtain ⟨j, rfl, found, nested⟩ := ih (p.step index '[') _ none first
      exact ⟨j + 1, by omega, found, nested⟩
    · by_cases closing : c = ']'
      · subst closing
        cases pending : p.pending with
        | nil =>
          obtain ⟨later, same, _⟩ := stray_scanFrom (p.step index ']') (index + 1) cs
          rw [same, step_stray pending, none, List.getLast?_concat] at first
          cases first
          exact ⟨0, rfl, rfl, rfl⟩
        | cons innermost outer =>
          rw [step_closing pending] at first
          obtain ⟨j, rfl, found, nested⟩ := ih { p with pending := outer } _ none first
          exact ⟨j + 1, by omega, found, nested⟩
      · rw [step_plain opening closing] at first
        obtain ⟨j, rfl, found, nested⟩ := ih _ _ none first
        refine ⟨j + 1, by omega, found, ?_⟩
        rw [List.take_succ_cons, depth?_plain opening closing]
        exact nested

end Pairing

theorem firstStray?_eq_some_iff {code : List Char} {i : Nat} :
    firstStray? code = some i ↔ code[i]? = some ']' ∧ WellNested (code.take i) := by
  constructor
  · intro first
    obtain ⟨j, rfl, found, nested⟩ := Pairing.getLast?_stray_scanFrom {} 0 rfl first
    rw [Nat.zero_add]
    exact ⟨found, wellNested_iff_depth.mpr nested⟩
  · intro first
    obtain ⟨found, nested⟩ := first
    have inside : i < code.length := (List.getElem?_eq_some_iff.mp found).1
    have length : (code.take i).length = i := by simp; omega
    rw [firstStray?, eq_take_cons_drop found, Pairing.scan_append,
      Pairing.scan_eq_empty_iff.mpr nested, Pairing.scanFrom, Pairing.step_stray rfl, length]
    obtain ⟨later, same, _⟩ := Pairing.stray_scanFrom ⟨[], [i]⟩ (i + 1) (code.drop (i + 1))
    rw [same, List.getLast?_concat]

theorem le_firstStray {code : List Char} {i stray : Nat}
    (none : (Pairing.scan (code.take i)).stray = []) (first : firstStray? code = some stray) :
    i ≤ stray :=
  Pairing.le_of_mem_stray none (List.mem_of_getLast? first)

end TapeMachine.Source
