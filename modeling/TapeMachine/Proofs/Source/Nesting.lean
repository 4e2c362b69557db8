import TapeMachine.Source.Bracket

/-
Well nested brackets, said by counting: no front of the text closes more than it opens, and the
whole text closes as many. Running through the text with the depth as the only state decides this,
and so does the pairing scan: a text is well nested exactly if every bracket finds a partner.
-/
namespace TapeMachine.Source

structure WellNested (code : List Char) : Prop where
  closed_le : ∀ front, front <+: code → front.count ']' ≤ front.count '['
  closed_eq : code.count ']' = code.count '['

/-- The number of loops open after a text that starts inside so many. Nothing where a closing
bracket has no loop to close. -/
def depth? : Nat → List Char → Option Nat
  | d, [] => some d
  | d, c :: cs =>
    if c = '[' then depth? (d + 1) cs
    else if c = ']' then
      match d with
      | 0 => none
      | outer + 1 => depth? outer cs
    else depth? d cs

theorem depth?_opening (d : Nat) (cs : List Char) : depth? d ('[' :: cs) = depth? (d + 1) cs := rfl

theorem depth?_stray (cs : List Char) : depth? 0 (']' :: cs) = none := rfl

theorem depth?_closing (d : Nat) (cs : List Char) : depth? (d + 1) (']' :: cs) = depth? d cs := rfl

theorem depth?_plain {c : Char} (opening : c ≠ '[') (closing : c ≠ ']') (d : Nat)
    (cs : List Char) : depth? d (c :: cs) = depth? d cs := by
  simp only [depth?, opening, closing, ↓reduceIte]

theorem forall_front_cons {holds : List Char → Prop} {c : Char} {cs : List Char} :
    (∀ front, front <+: c :: cs → holds front) ↔
      holds [] ∧ ∀ front, front <+: cs → holds (c :: front) := by
  constructor
  · intro all
    exact ⟨all [] List.nil_prefix, fun front h => all _ (List.cons_prefix_cons.mpr ⟨rfl, h⟩)⟩
  · rintro ⟨empty, longer⟩ front h
    rcases List.prefix_cons_iff.mp h with rfl | ⟨rest, rfl, inside⟩
    · exact empty
    · exact longer rest inside

theorem depth?_eq_some_iff {d e : Nat} {code : List Char} :
    depth? d code = some e ↔
      (∀ front, front <+: code → front.count ']' ≤ d + front.count '[') ∧
        e + code.count ']' = d + code.count '[' := by
  induction code generalizing d with
  | nil => simp [depth?, eq_comm]
  | cons c cs ih =>
    rw [forall_front_cons]
    by_cases opening : c = '['
    · subst opening
      rw [depth?_opening, ih]
      simp [Nat.add_right_comm d 1, Nat.add_assoc]
    · by_cases closing : c = ']'
      · subst closing
        cases d with
        | zero =>
          rw [depth?_stray]
          simp only [reduceCtorEq, false_iff]
          rintro ⟨⟨_, fronts⟩, _⟩
          have := fronts [] List.nil_prefix
          simp at this
        | succ d =>
          rw [depth?_closing, ih]
          simp [Nat.add_right_comm d 1, ← Nat.add_assoc]
      · rw [depth?_plain opening closing, ih]
        simp [opening, closing]

theorem wellNested_iff_depth {code : List Char} : WellNested code ↔ depth? 0 code = some 0 := by
  rw [depth?_eq_some_iff]
  simp only [Nat.zero_add]
  exact ⟨fun h => ⟨h.closed_le, h.closed_eq⟩, fun h => ⟨h.1, h.2⟩⟩

theorem depth?_append (d : Nat) (a b : List Char) :
    depth? d (a ++ b) = (depth? d a).bind (depth? · b) := by
  induction a generalizing d with
  | nil => rfl
  | cons c cs ih =>
    rw [List.cons_append]
    by_cases opening : c = '['
    · subst opening
      exact ih (d + 1)
    · by_cases closing : c = ']'
      · subst closing
        cases d with
        | zero => rfl
        | succ d => exact ih d
      · rw [depth?_plain opening closing, depth?_plain opening closing]
        exact ih d

theorem depth?_add {d e : Nat} {code : List Char} (deep : depth? d code = some e) (k : Nat) :
    depth? (d + k) code = some (e + k) := by
  obtain ⟨fronts, whole⟩ := depth?_eq_some_iff.mp deep
  refine depth?_eq_some_iff.mpr ⟨?_, by omega⟩
  intro front h
  have := fronts front h
  omega

namespace WellNested

theorem nil : WellNested [] := wellNested_iff_depth.mpr rfl

theorem depth?_eq {code : List Char} (nested : WellNested code) (d : Nat) :
    depth? d code = some d := by
  have := depth?_add (wellNested_iff_depth.mp nested) d
  rwa [Nat.zero_add] at this

theorem append {a b : List Char} (first : WellNested a) (second : WellNested b) :
    WellNested (a ++ b) := by
  rw [wellNested_iff_depth, depth?_append, first.depth?_eq 0]
  exact second.depth?_eq 0

theorem loop {body : List Char} (nested : WellNested body) :
    WellNested ('[' :: (body ++ [']'])) := by
  rw [wellNested_iff_depth, depth?_opening, depth?_append, nested.depth?_eq 1]
  rfl

theorem plain {c : Char} (opening : c ≠ '[') (closing : c ≠ ']') : WellNested [c] := by
  rw [wellNested_iff_depth, depth?_plain opening closing]
  rfl

end WellNested

end TapeMachine.Source
