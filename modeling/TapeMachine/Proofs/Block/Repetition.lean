import TapeMachine.Proofs.Block.Straight

/-
Equal instructions in succession. One that is carried out again and again leads along a line of
tapes; guard rails let it go on for ever, and strictly it is refused for the first time when the
room is used up. So a run of equal instructions has a closed form, whatever their number.
-/
namespace TapeMachine

open Source (isPlain)

namespace Tape

/-- The tapes that an instruction leads along, and how often it is carried out strictly. -/
structure Line (i : Instruction) (along : Nat → Tape) (room : Nat) (cause : Cause) : Prop where
  apply_eq : ∀ k, (along k).apply i = along (k + 1)
  allowed : ∀ k < room, (along k).refusal? i = none
  refused : (along room).refusal? i = some cause

variable {i : Instruction} {along : Nat → Tape} {room k : Nat} {cause : Cause} {tape : Tape}

theorem Line.takes (line : Line i along room cause) (inside : k < room) (rails : Bool) :
    Takes rails i (along k) (along (k + 1)) :=
  ⟨.inr (line.allowed k inside), line.apply_eq k⟩

theorem Line.takes_with_rails (line : Line i along room cause) (k : Nat) :
    Takes true i (along k) (along (k + 1)) :=
  ⟨.inl rfl, line.apply_eq k⟩

theorem write_cell (inside : tape.pointer < tape.capacity) : tape.write tape.cell = tape := by
  have same : tape.cells.setIfInBounds tape.pointer tape.cell = tape.cells := by
    unfold capacity at inside
    simp [cell, inside, Array.setIfInBounds]
  rw [write, same]

theorem write_write (tape : Tape) (one two : Nat) :
    (tape.write one).write two = tape.write two := by
  simp [write]

theorem line_right (inside : tape.pointer < tape.capacity) :
    Line .right (fun k => { tape with pointer := min (tape.pointer + k) (tape.capacity - 1) })
      (tape.capacity - 1 - tape.pointer) (.outOfBounds (tape.capacity - 1) .right) where
  apply_eq k := by
    have next : min (min (tape.pointer + k) (tape.capacity - 1) + 1) (tape.capacity - 1) =
        min (tape.pointer + (k + 1)) (tape.capacity - 1) := by omega
    simpa only [apply, moveRight, capacity] using congrArg (Tape.mk tape.cells · tape.limit) next
  allowed k less := by
    have room : min (tape.pointer + k) (tape.capacity - 1) + 1 < tape.capacity := by omega
    exact if_pos room
  refused := by
    have last : min (tape.pointer + (tape.capacity - 1 - tape.pointer)) (tape.capacity - 1) =
        tape.capacity - 1 := by omega
    have full : ¬ tape.capacity - 1 + 1 < tape.capacity := by omega
    simp only [last]
    exact if_neg full

theorem line_left (tape : Tape) :
    Line .left (fun k => { tape with pointer := tape.pointer - k }) tape.pointer
      (.outOfBounds 0 .left) where
  apply_eq k := rfl
  allowed k less := if_neg (Nat.sub_ne_zero_of_lt less)
  refused := by simp [refusal?]

theorem line_increment (inside : tape.pointer < tape.capacity) (below : tape.cell < tape.limit) :
    Line .increment (fun k => tape.write ((tape.cell + k) % tape.limit))
      (tape.limit - 1 - tape.cell) (.overflow tape.limit) where
  apply_eq k := by
    rw [apply, increment, cell_write _ _ inside, write_write, limit_write, Nat.mod_add_mod,
      Nat.add_assoc]
  allowed k less := by
    have small : (tape.cell + k) % tape.limit = tape.cell + k := Nat.mod_eq_of_lt (by omega)
    have room : tape.cell + k + 1 < tape.limit := by omega
    rw [refusal?, cell_write _ _ inside, small]
    exact if_pos room
  refused := by
    have last : (tape.cell + (tape.limit - 1 - tape.cell)) % tape.limit = tape.limit - 1 := by
      rw [Nat.mod_eq_of_lt] <;> omega
    have full : ¬ tape.limit - 1 + 1 < tape.limit := by omega
    rw [refusal?, cell_write _ _ inside, last]
    exact if_neg full

theorem line_decrement (inside : tape.pointer < tape.capacity) :
    Line .decrement (fun k => tape.write (tape.cell - k)) tape.cell .subZero where
  apply_eq k := by
    rw [apply, decrement, cell_write _ _ inside, write_write, Nat.sub_sub]
  allowed k less := by
    rw [refusal?, cell_write _ _ inside]
    exact if_neg (Nat.sub_ne_zero_of_lt less)
  refused := by
    rw [refusal?, cell_write _ _ inside, Nat.sub_self]
    rfl

end Tape

theorem Instruction.isPlain_toChar (i : Instruction) : isPlain i.toChar = true := by
  cases i <;> rfl

section

variable {rails : Bool} {i : Instruction} {along : Nat → Tape} {room n : Nat} {cause : Cause}

theorem isPlain_of_equal {b : Block} (equal : b.text = List.replicate n i.toChar) :
    ∀ c ∈ b.text, isPlain c = true := by
  intro c member
  rw [equal] at member
  rw [List.eq_of_mem_replicate member]
  exact i.isPlain_toChar

theorem ends_repeated (kind : i.actsOnTape = true)
    (takes : ∀ k < n, Tape.Takes rails i (along k) (along (k + 1))) (input : Input) :
    Ends rails {} (List.replicate n i.toChar) (along 0) input (.silent n (along n) input) := by
  have equal : (Block.repeated i kind n .done).text = List.replicate n i.toChar := by
    rw [Block.text_repeated]
    exact List.append_nil _
  rw [← equal]
  exact ((Block.maps_done rails _).repeated kind takes).ends (isPlain_of_equal equal) input

theorem ends_repeated_refused (takes : ∀ k < room, Tape.Takes false i (along k) (along (k + 1)))
    (refused : (along room).refusal? i = some cause) (beyond : room < n) (input : Input) :
    Ends false {} (List.replicate n i.toChar) (along 0) input
      (.stuck (room + 1) cause (along room) input) := by
  have kind := Tape.actsOnTape_of_refusal refused
  obtain ⟨left, rfl⟩ := Nat.exists_eq_add_of_lt beyond
  let last : Block := .repeated i kind (left + 1) .done
  let there : Store := ⟨along room, input, #[], 0 + room⟩
  have stuck : last.Means false (0 + room) there
      ⟨there, some (.located (0 + room + 1) cause)⟩ := by
    refine Block.means_single_iff.mpr (.inr ?_)
    rw [Store.single_of_refusal refused]
    exact ⟨Option.some_ne_none _, rfl⟩
  have means : (Block.repeated i kind room last).Means false 0 (.start (along 0) input) _ :=
    Block.means_repeated kind takes rfl stuck
  have equal : (Block.repeated i kind room last).text =
      List.replicate (room + left + 1) i.toChar := by
    rw [Block.text_repeated, Block.text_repeated, Block.text, List.append_nil,
      List.replicate_append_replicate, Nat.add_assoc]
  rw [← equal]
  rw [Nat.zero_add] at means
  exact means.ends (isPlain_of_equal equal)

/-- Guard rails let an instruction go on along its line; a strict run stops where the room ends. -/
theorem Tape.Line.ends (line : Tape.Line i along room cause) (n : Nat) (input : Input) :
    Ends false {} (List.replicate n i.toChar) (along 0) input
        (if n ≤ room then .silent n (along n) input
         else .stuck (room + 1) cause (along room) input) ∧
      Ends true {} (List.replicate n i.toChar) (along 0) input (.silent n (along n) input) := by
  have kind := Tape.actsOnTape_of_refusal line.refused
  constructor
  · split
    · rename_i enough
      exact ends_repeated kind
        (fun k less => line.takes (Nat.lt_of_lt_of_le less enough) false) input
    · rename_i beyond
      exact ends_repeated_refused (fun k less => line.takes less false) line.refused
        (Nat.lt_of_not_le beyond) input
  · exact ends_repeated kind (fun k _ => line.takes_with_rails k) input

end

variable {tape : Tape}

theorem repeated_right (inside : tape.pointer < tape.capacity) (n : Nat) (input : Input) :
    Ends false {} (List.replicate n '>') tape input
        (if tape.pointer + n < tape.capacity then
          .silent n { tape with pointer := tape.pointer + n } input
         else
          .stuck (tape.capacity - tape.pointer) (.outOfBounds (tape.capacity - 1) .right)
            { tape with pointer := tape.capacity - 1 } input) ∧
      Ends true {} (List.replicate n '>') tape input
        (.silent n { tape with pointer := min (tape.pointer + n) (tape.capacity - 1) } input) := by
  have start : { tape with pointer := min (tape.pointer + 0) (tape.capacity - 1) } = tape := by
    have here : min (tape.pointer + 0) (tape.capacity - 1) = tape.pointer := by omega
    rw [here]
  obtain ⟨strict, railed⟩ := (Tape.line_right inside).ends n input
  rw [start] at strict railed
  refine ⟨?_, railed⟩
  split
  · rename_i enough
    have within : min (tape.pointer + n) (tape.capacity - 1) = tape.pointer + n := by omega
    rw [if_pos (by omega), within] at strict
    exact strict
  · rename_i beyond
    have last : min (tape.pointer + (tape.capacity - 1 - tape.pointer)) (tape.capacity - 1) =
        tape.capacity - 1 := by omega
    have position : tape.capacity - 1 - tape.pointer + 1 = tape.capacity - tape.pointer := by omega
    rw [if_neg (by omega), last, position] at strict
    exact strict

theorem repeated_left (tape : Tape) (n : Nat) (input : Input) :
    Ends false {} (List.replicate n '<') tape input
        (if n ≤ tape.pointer then .silent n { tape with pointer := tape.pointer - n } input
         else .stuck (tape.pointer + 1) (.outOfBounds 0 .left) { tape with pointer := 0 } input) ∧
      Ends true {} (List.replicate n '<') tape input
        (.silent n { tape with pointer := tape.pointer - n } input) := by
  obtain ⟨strict, railed⟩ := (Tape.line_left tape).ends n input
  rw [Nat.sub_self] at strict
  exact ⟨strict, railed⟩

theorem repeated_increment (fits : tape.WellFormed) (n : Nat) (input : Input) :
    Ends false {} (List.replicate n '+') tape input
        (if tape.cell + n < tape.limit then .silent n (tape.write (tape.cell + n)) input
         else
          .stuck (tape.limit - tape.cell) (.overflow tape.limit) (tape.write (tape.limit - 1))
            input) ∧
      Ends true {} (List.replicate n '+') tape input
        (.silent n (tape.write ((tape.cell + n) % tape.limit)) input) := by
  have below := fits.cell_lt_limit
  have start : tape.write ((tape.cell + 0) % tape.limit) = tape := by
    rw [Nat.add_zero, Nat.mod_eq_of_lt below, Tape.write_cell fits.pointer_lt]
  obtain ⟨strict, railed⟩ := (Tape.line_increment fits.pointer_lt below).ends n input
  rw [start] at strict railed
  refine ⟨?_, railed⟩
  split
  · rename_i enough
    rw [if_pos (by omega), Nat.mod_eq_of_lt enough] at strict
    exact strict
  · rename_i beyond
    have last : (tape.cell + (tape.limit - 1 - tape.cell)) % tape.limit = tape.limit - 1 := by
      rw [Nat.mod_eq_of_lt] <;> omega
    have position : tape.limit - 1 - tape.cell + 1 = tape.limit - tape.cell := by omega
    rw [if_neg (by omega), last, position] at strict
    exact strict

theorem repeated_decrement (inside : tape.pointer < tape.capacity) (n : Nat) (input : Input) :
    Ends false {} (List.replicate n '-') tape input
        (if n ≤ tape.cell then .silent n (tape.write (tape.cell - n)) input
         else .stuck (tape.cell + 1) .subZero (tape.write 0) input) ∧
      Ends true {} (List.replicate n '-') tape input
        (.silent n (tape.write (tape.cell - n)) input) := by
  obtain ⟨strict, railed⟩ := (Tape.line_decrement inside).ends n input
  rw [Nat.sub_zero, Tape.write_cell inside] at strict railed
  rw [Nat.sub_self] at strict
  exact ⟨strict, railed⟩

/-- What so many equal moves or changes of the cell come to, from any tape in order: without guard
rails up to the end of the tape, zero or the limit and there stuck on the next instruction, with
guard rails always to the end. A move keeps all cells and a change all cells but its own. -/
theorem equal_instructions_have_closed_forms (fits : tape.WellFormed) (n : Nat) (input : Input) :
    (Ends false {} (List.replicate n '>') tape input
        (if tape.pointer + n < tape.capacity then
          .silent n { tape with pointer := tape.pointer + n } input
         else
          .stuck (tape.capacity - tape.pointer) (.outOfBounds (tape.capacity - 1) .right)
            { tape with pointer := tape.capacity - 1 } input) ∧
      Ends true {} (List.replicate n '>') tape input
        (.silent n { tape with pointer := min (tape.pointer + n) (tape.capacity - 1) } input)) ∧
    (Ends false {} (List.replicate n '<') tape input
        (if n ≤ tape.pointer then .silent n { tape with pointer := tape.pointer - n } input
         else .stuck (tape.pointer + 1) (.outOfBounds 0 .left) { tape with pointer := 0 } input) ∧
      Ends true {} (List.replicate n '<') tape input
        (.silent n { tape with pointer := tape.pointer - n } input)) ∧
    (Ends false {} (List.replicate n '+') tape input
        (if tape.cell + n < tape.limit then .silent n (tape.write (tape.cell + n)) input
         else
          .stuck (tape.limit - tape.cell) (.overflow tape.limit) (tape.write (tape.limit - 1))
            input) ∧
      Ends true {} (List.replicate n '+') tape input
        (.silent n (tape.write ((tape.cell + n) % tape.limit)) input)) ∧
    Ends false {} (List.replicate n '-') tape input
        (if n ≤ tape.cell then .silent n (tape.write (tape.cell - n)) input
         else .stuck (tape.cell + 1) .subZero (tape.write 0) input) ∧
      Ends true {} (List.replicate n '-') tape input
        (.silent n (tape.write (tape.cell - n)) input) :=
  ⟨repeated_right fits.pointer_lt n input, repeated_left tape n input,
    repeated_increment fits n input, repeated_decrement fits.pointer_lt n input⟩

/-- Two moves and two increments from the last cell but one, one below the limit. -/
theorem equal_instructions_at_bounds :
    Ends false {} ['>', '>'] ⟨#[3, 255, 7], 1, 256⟩ (.queue [])
        (.stuck 2 (.outOfBounds 2 .right) ⟨#[3, 255, 7], 2, 256⟩ (.queue [])) ∧
      Ends false {} ['+', '+'] ⟨#[3, 255, 7], 1, 256⟩ (.queue [])
        (.stuck 1 (.overflow 256) ⟨#[3, 255, 7], 1, 256⟩ (.queue [])) ∧
      Ends true {} ['+', '+'] ⟨#[3, 255, 7], 1, 256⟩ (.queue [])
        (.silent 2 ⟨#[3, 1, 7], 1, 256⟩ (.queue [])) := by
  have fits : Tape.WellFormed ⟨#[3, 255, 7], 1, 256⟩ := ⟨by decide, by decide⟩
  obtain ⟨⟨right, _⟩, _, ⟨increment, wrapped⟩, _⟩ :=
    equal_instructions_have_closed_forms fits 2 (.queue [])
  exact ⟨right, increment, wrapped⟩

end TapeMachine
