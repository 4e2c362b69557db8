import TapeMachine.Text.Encoding

/-
Pieces of a text by byte offsets. There is a piece between two offsets only if the text reaches that
far and neither of them falls inside a character; there is at most one. In ASCII every offset will
do.
-/
namespace TapeMachine.Text

variable {s t : List Char} {c : Char} {start stop : Nat} {piece : List Char}

def Slice (s : List Char) (start stop : Nat) (piece : List Char) : Prop :=
  ∃ front rest, s = front ++ piece ++ rest ∧ byteLength front = start ∧
    byteLength (front ++ piece) = stop

@[simp] theorem byteLength_nil : byteLength [] = 0 := rfl

@[simp] theorem byteLength_cons (c : Char) (s : List Char) :
    byteLength (c :: s) = c.utf8Size + byteLength s := by
  simp [byteLength, encode]

@[simp] theorem byteLength_append (s t : List Char) :
    byteLength (s ++ t) = byteLength s + byteLength t := by
  simp [byteLength, encode]

theorem byteLength_eq_zero_iff : byteLength s = 0 ↔ s = [] := by
  cases s with
  | nil => simp
  | cons c cs =>
    have := c.utf8Size_pos
    simp only [byteLength_cons, reduceCtorEq, iff_false]
    omega

theorem append_inj_of_byteLength {a b c d : List Char} (whole : a ++ b = c ++ d)
    (same : byteLength a = byteLength c) : a = c ∧ b = d := by
  induction a generalizing c with
  | nil =>
    obtain rfl := byteLength_eq_zero_iff.mp same.symm
    exact ⟨rfl, whole⟩
  | cons x xs ih =>
    cases c with
    | nil =>
      have := byteLength_eq_zero_iff.mp same
      cases this
    | cons y ys =>
      obtain ⟨rfl, later⟩ := List.cons.inj whole
      simp only [byteLength_cons, Nat.add_left_cancel_iff] at same
      obtain ⟨rfl, rest⟩ := ih later same
      exact ⟨rfl, rest⟩

theorem Slice.unique {other : List Char} (one : Slice s start stop piece)
    (two : Slice s start stop other) : piece = other := by
  obtain ⟨front, rest, rfl, rfl, rfl⟩ := one
  obtain ⟨front', rest', whole, starts, stops⟩ := two
  obtain ⟨together, _⟩ := append_inj_of_byteLength whole stops.symm
  exact (append_inj_of_byteLength together starts.symm).2

theorem Slice.byteLength_eq (cut : Slice s start stop piece) : start + byteLength piece = stop := by
  obtain ⟨front, rest, _, rfl, rfl⟩ := cut
  exact (byteLength_append front piece).symm

theorem Slice.append {between : Nat} {next : List Char} (one : Slice s start between piece)
    (two : Slice s between stop next) : Slice s start stop (piece ++ next) := by
  obtain ⟨front, rest, rfl, rfl, rfl⟩ := one
  obtain ⟨front', rest', whole, starts, rfl⟩ := two
  rw [List.append_assoc front'] at whole
  obtain ⟨rfl, rfl⟩ := append_inj_of_byteLength whole starts.symm
  exact ⟨front, rest', by simp, rfl, by simp⟩

theorem slice_whole (s : List Char) : Slice s 0 (byteLength s) s := ⟨[], [], by simp, rfl, rfl⟩

theorem slice_front (front rest : List Char) :
    Slice (front ++ rest) 0 (byteLength front) front :=
  ⟨[], rest, rfl, rfl, rfl⟩

theorem slice_rest (front rest : List Char) :
    Slice (front ++ rest) (byteLength front) (byteLength (front ++ rest)) rest :=
  ⟨front, [], by simp, rfl, rfl⟩

theorem slice_inner {a b : Char} (first : a.utf8Size = 1) (last : b.utf8Size = 1)
    (inner : List Char) :
    Slice (a :: (inner ++ [b])) 1 (byteLength (a :: (inner ++ [b])) - 1) inner := by
  refine ⟨[a], [b], by simp, by simp [first], ?_⟩
  simp only [byteLength_append, byteLength_cons, byteLength_nil, first, last]
  omega

theorem eq_inner_of_ends {a b : Char} (head : s.head? = some a) (last : s.getLast? = some b)
    (apart : a ≠ b ∨ 2 ≤ s.length) : s = a :: (s.tail.dropLast ++ [b]) := by
  obtain ⟨rest, rfl⟩ := List.head?_eq_some_iff.mp head
  rcases List.eq_nil_or_concat rest with rfl | ⟨inner, c, rfl⟩
  · simp at last apart
    exact absurd last apart
  · rw [List.concat_eq_append, ← List.cons_append, List.getLast?_concat] at last
    cases last
    simp

def Ascii (s : List Char) : Prop := ∀ c ∈ s, c.toNat < 128

theorem utf8Size_of_ascii (small : c.toNat < 128) : c.utf8Size = 1 := by
  rw [Char.utf8Size_eq_one_iff, UInt32.le_iff_toNat_le]
  exact Nat.le_of_lt_succ small

theorem Ascii.byteLength_eq (ascii : Ascii s) : byteLength s = s.length := by
  induction s with
  | nil => rfl
  | cons c cs ih =>
    obtain ⟨first, others⟩ := List.forall_mem_cons.mp ascii
    rw [byteLength_cons, utf8Size_of_ascii first, ih others, List.length_cons, Nat.add_comm]

end TapeMachine.Text
