import TapeMachine.Proofs.Block.Repetition

/-
Loops that count a cell down. If each pass of a loop lowers the cell it tests by one, the loop makes
as many passes as the cell holds, along a line of tapes that ends at zero. A loop that adds, inside
another that counts how often, comes to a product.
-/
namespace TapeMachine

namespace Block

variable {rails : Bool} {body rest : Block} {down : Nat → Tape} {m n : Nat}

theorem repeats_countdown (counter : ∀ k ≤ n, (down k).cell = k)
    (pass : ∀ k < n, Maps rails body m (down (k + 1)) (down k)) (entered : 0 < n)
    {position : Nat} {s : Store} (start : s.tape = down n) :
    Repeats rails body position s
      ⟨{ s with tape := down 0, steps := s.steps + n * (m + 1) }, none⟩ := by
  -- The passes that are left. The last of them leaves zero in the cell.
  induction n generalizing s with
  | zero => cases entered
  | succ n ih =>
    have once := pass n (Nat.lt_succ_self n) position s start
    refine repeats_iff.mpr ⟨_, once, .inl ⟨rfl, ?_⟩⟩
    have left : (down n).cell = n := counter n (Nat.le_succ n)
    by_cases last : n = 0
    · subst last
      refine .inl ⟨left, ?_⟩
      simp only [Store.tick, Nat.zero_add, Nat.one_mul, Nat.add_assoc]
    · refine .inr ⟨fun zero => last (left.symm.trans zero), ?_⟩
      have again := ih (fun k le => counter k (Nat.le_succ_of_le le))
        (fun k less => pass k (Nat.lt_succ_of_lt less)) (Nat.pos_of_ne_zero last)
        (s := Store.tick { s with tape := down n, steps := s.steps + m }) rfl
      have steps : s.steps + m + 1 + n * (m + 1) = s.steps + (n + 1) * (m + 1) := by
        rw [Nat.succ_mul]
        omega
      simpa only [Store.tick, steps] using again

theorem Maps.countdown {l : Nat} {after : Tape} (maps : Maps rails rest l (down 0) after)
    (counter : ∀ k ≤ n, (down k).cell = k)
    (pass : ∀ k < n, Maps rails body m (down (k + 1)) (down k)) (entered : 0 < n) :
    Maps rails (.loop body rest) (1 + n * (m + 1) + l) (down n) after := by
  intro position s start
  have repeats : Repeats rails body (position + 1) s.tick _ :=
    repeats_countdown counter pass entered start
  refine means_loop_iff.mpr ⟨_, repeats, .inl ⟨rfl, ?_⟩⟩
  have later := maps (position + body.text.length + 2)
    { s.tick with tape := down 0, steps := s.tick.steps + n * (m + 1) } rfl
  have steps : s.steps + 1 + n * (m + 1) + l = s.steps + (1 + n * (m + 1) + l) := by omega
  simpa only [Store.tick, steps] using later

theorem Maps.increments {tape after : Tape}
    (maps : Maps rails rest m (tape.write (tape.cell + n)) after)
    (inside : tape.pointer < tape.capacity) (room : tape.cell + n < tape.limit) :
    Maps rails (.repeated .increment (by decide) n rest) (n + m) tape after := by
  have below : tape.cell < tape.limit := Nat.lt_of_le_of_lt (Nat.le_add_right tape.cell n) room
  let along (k : Nat) : Tape := tape.write ((tape.cell + k) % tape.limit)
  have first : along 0 = tape := by
    simp only [along, Nat.add_zero, Nat.mod_eq_of_lt below, Tape.write_cell inside]
  have last : along n = tape.write (tape.cell + n) := by
    simp only [along, Nat.mod_eq_of_lt room]
  have takes (k : Nat) (less : k < n) : Tape.Takes rails .increment (along k) (along (k + 1)) :=
    (Tape.line_increment inside below).takes (by omega) rails
  rw [← last] at maps
  have whole := maps.repeated (by decide) takes
  rwa [first] at whole

theorem Maps.forward {tape after : Tape} {plain : '>' ≠ '[' ∧ '>' ≠ ']'}
    (maps : Maps rails rest n { tape with pointer := tape.pointer + 1 } after)
    (room : tape.pointer + 1 < tape.capacity) :
    Maps rails (.single '>' plain rest) (n + 1) tape after := by
  have next : tape.apply .right = { tape with pointer := tape.pointer + 1 } := by
    have here : min (tape.pointer + 1) (tape.capacity - 1) = tape.pointer + 1 := by omega
    rw [Tape.apply, Tape.moveRight, here]
  rw [← next] at maps
  exact maps.act (i := .right) rfl (if_pos room)

def back : Block := .single '<' (by decide) (.single '-' (by decide) .done)

theorem maps_back {tape : Tape} (behind : tape.pointer ≠ 0) (positive : tape.moveLeft.cell ≠ 0) :
    Maps rails back 2 tape tape.moveLeft.decrement := by
  have last : Maps rails (.single '-' (by decide) .done) 1 tape.moveLeft tape.moveLeft.decrement :=
    (maps_done rails _).act (i := .decrement) rfl (if_neg positive)
  exact last.act (i := .left) rfl (if_neg behind)

def adding (c : Nat) : Block := .single '>' (by decide) (.repeated .increment (by decide) c back)

/-- Sets the next cell to a number, adds another as often to the cell behind it, and lowers this
one. -/
def addingTimes (b c : Nat) : Block :=
  .single '>' (by decide) (.repeated .increment (by decide) b (.loop (adding c) back))

def product (a b c : Nat) : Block :=
  .repeated .increment (by decide) a (.loop (addingTimes b c) .done)

end Block

def Tape.registers (x y z : Nat) (rest : List Nat) (pointer limit : Nat) : Tape :=
  { cells := (x :: y :: z :: rest).toArray, pointer, limit }

namespace Block

open Tape (registers)

variable {x y z a b c limit : Nat} {further : List Nat}

theorem lt_capacity_registers {i pointer : Nat} (named : i < 3) :
    i < (registers x y z further pointer limit).capacity :=
  Nat.lt_of_lt_of_le named (Nat.le_add_left 3 further.length)

theorem maps_adding (room : z + c < limit) :
    Maps rails (adding c) (c + 3) (registers x (y + 1) z further 1 limit)
      (registers x y (z + c) further 1 limit) := by
  have lowers : Maps rails back 2 (registers x (y + 1) (z + c) further 2 limit)
      (registers x y (z + c) further 1 limit) :=
    maps_back (Nat.succ_ne_zero 1) (Nat.succ_ne_zero y)
  have adds : Maps rails _ (c + 2) (registers x (y + 1) z further 2 limit) _ :=
    lowers.increments (lt_capacity_registers (by decide : 2 < 3)) room
  exact adds.forward (lt_capacity_registers (by decide : 2 < 3))

theorem add_pass {k : Nat} (less : k < n) (z c : Nat) :
    z + (n - (k + 1)) * c + c = z + (n - k) * c := by
  obtain ⟨d, rfl⟩ := Nat.exists_eq_add_of_lt less
  have left : k + d + 1 - (k + 1) = d := by omega
  have before : k + d + 1 - k = d + 1 := by omega
  rw [left, before, Nat.succ_mul, Nat.add_assoc]

theorem add_pass_lt {k : Nat} (less : k < n) (room : z + n * c < limit) :
    z + (n - (k + 1)) * c + c < limit := by
  have fewer : (n - k) * c ≤ n * c := Nat.mul_le_mul_right c (Nat.sub_le n k)
  rw [add_pass less]
  omega

theorem maps_addingTimes (entered : 0 < b) (wide : b < limit) (room : z + b * c < limit) :
    Maps rails (addingTimes b c) (b * (c + 5) + 4) (registers (x + 1) 0 z further 0 limit)
      (registers x 0 (z + b * c) further 0 limit) := by
  let down (k : Nat) : Tape := registers (x + 1) k (z + (b - k) * c) further 1 limit
  have pass (k : Nat) (less : k < b) : Maps rails (adding c) (c + 3) (down (k + 1)) (down k) := by
    have once : Maps rails (adding c) (c + 3) (down (k + 1)) _ :=
      maps_adding (add_pass_lt less room)
    rwa [add_pass less] at once
  have lowers : Maps rails back 2 (down 0) (registers x 0 (z + b * c) further 0 limit) :=
    maps_back (Nat.succ_ne_zero 0) (Nat.succ_ne_zero x)
  have loop := lowers.countdown (fun k _ => rfl) pass entered
  have first : down b = (registers (x + 1) 0 z further 1 limit).write (0 + b) := by
    simp only [down, Nat.sub_self, Nat.zero_mul, Nat.add_zero, Nat.zero_add]
    rfl
  have small : 0 + b < limit := by rwa [Nat.zero_add]
  rw [first] at loop
  have sets : Maps rails _ _ (registers (x + 1) 0 z further 1 limit) _ :=
    loop.increments (lt_capacity_registers (by decide : 1 < 3)) small
  have steps : b + (1 + b * (c + 3 + 1) + 2) + 1 = b * (c + 5) + 4 := by
    simp only [Nat.mul_add]
    omega
  rw [← steps]
  exact sets.forward (lt_capacity_registers (by decide : 1 < 3))

theorem maps_product (entered : 0 < a) (entered' : 0 < b) (wide : a < limit) (wide' : b < limit)
    (room : a * (b * c) < limit) :
    Maps rails (product a b c) (a + 1 + a * (b * (c + 5) + 5)) (registers 0 0 0 further 0 limit)
      (registers 0 0 (a * (b * c)) further 0 limit) := by
  let down (k : Nat) : Tape := registers k 0 ((a - k) * (b * c)) further 0 limit
  have pass (k : Nat) (less : k < a) :
      Maps rails (addingTimes b c) (b * (c + 5) + 4) (down (k + 1)) (down k) := by
    have room' : 0 + a * (b * c) < limit := by rwa [Nat.zero_add]
    have once : Maps rails (addingTimes b c) _ (registers (k + 1) 0 _ further 0 limit) _ :=
      maps_addingTimes entered' wide' (add_pass_lt less room')
    rw [add_pass less] at once
    simpa only [Nat.zero_add] using once
  have loop := (maps_done rails (down 0)).countdown (fun k _ => rfl) pass entered
  have first : down a = (registers 0 0 0 further 0 limit).write (0 + a) := by
    simp only [down, Nat.sub_self, Nat.zero_mul, Nat.zero_add]
    rfl
  have small : 0 + a < limit := by rwa [Nat.zero_add]
  rw [first] at loop
  have sets : Maps rails (product a b c) _ (registers 0 0 0 further 0 limit) _ :=
    loop.increments (lt_capacity_registers (by decide : 0 < 3)) small
  rwa [Nat.add_zero, Nat.add_assoc _ 4 1, ← Nat.add_assoc] at sets

end Block

/-- Adds `c` to the third cell `b` times, and that `a` times. -/
def productCode (a b c : Nat) : List Char :=
  List.replicate a '+' ++ ['[', '>'] ++ List.replicate b '+' ++ ['[', '>'] ++
    List.replicate c '+' ++ ['<', '-', ']', '<', '-', ']']

theorem text_product (a b c : Nat) : (Block.product a b c).text = productCode a b c := by
  simp [Block.product, Block.addingTimes, Block.adding, Block.back, Block.text, Block.text_repeated,
    productCode, Instruction.toChar]

theorem isPlain_productCode {a b c : Nat} {d : Char} (member : d ∈ productCode a b c) :
    Source.isPlain d = true := by
  have known : d = '+' ∨ d ∈ ['[', '>', '<', '-', ']'] := by
    simp only [productCode, List.mem_append, List.mem_replicate] at member
    grind
  rcases known with rfl | bracket
  · rfl
  · exact List.all_eq_true.mp (by decide) d bracket

/-- Loops in loops compute a product, with guard rails and without, wherever it is below the limit:
the third cell of a blank tape comes to hold it, and every other cell is zero again. -/
theorem nested_loops_multiply {a b c : Nat} {config : TapeConfig} (ha : 1 ≤ a) (hb : 1 ≤ b)
    (hc : 1 ≤ c) (cells : 3 ≤ config.capacity) (below : a * b * c < config.limit) (rails : Bool)
    (input : Input) :
    Ends rails {} (productCode a b c) (.blank config) input
      (.silent (a + 1 + a * (b * (c + 5) + 5))
        { cells := (Array.replicate config.capacity 0).setIfInBounds 2 (a * b * c)
          pointer := 0
          limit := config.limit }
        input) := by
  obtain ⟨capacity, limit⟩ := config
  obtain ⟨further, rfl⟩ : ∃ further, capacity = further + 3 := Nat.exists_eq_add_of_le' cells
  have room : a * (b * c) < limit := by rwa [← Nat.mul_assoc]
  have wide : a < limit :=
    Nat.lt_of_le_of_lt (Nat.le_mul_of_pos_right a (Nat.mul_pos hb hc)) room
  have wide' : b < limit := by
    have inner : b ≤ b * c := Nat.le_mul_of_pos_right b hc
    have outer : b * c ≤ a * (b * c) := Nat.le_mul_of_pos_left (b * c) ha
    omega
  have maps : Block.Maps rails (.product a b c) _
      (.registers 0 0 0 (List.replicate further 0) 0 limit) _ :=
    Block.maps_product ha hb wide wide' room
  have plain : ∀ d ∈ (Block.product a b c).text, Source.isPlain d = true := by
    rw [text_product]
    exact fun d member => isPlain_productCode member
  have ends := maps.ends plain input
  rw [text_product, ← Nat.mul_assoc] at ends
  exact ends

/-- Two times three times two, just below the limit and on the shortest tape. -/
theorem nested_loops_multiply_to_twelve :
    Ends false {}
      ['+', '+', '[', '>', '+', '+', '+', '[', '>', '+', '+', '<', '-', ']', '<', '-', ']']
      (.blank ⟨3, 13⟩) (.queue []) (.silent 55 ⟨#[0, 0, 12], 0, 13⟩ (.queue [])) := by
  have ends : Ends false {} (productCode 2 3 2) (.blank ⟨3, 13⟩) (.queue []) _ :=
    nested_loops_multiply (by decide) (by decide) (by decide) (by decide) (by decide) false
      (.queue [])
  exact ends

end TapeMachine
