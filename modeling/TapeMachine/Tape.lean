import TapeMachine.Fault
import TapeMachine.Instruction

/-
The tape: a fixed number of cells that hold numbers below a limit, and a pointer to one of them.
Every operation here is total and stays inside the tape: moves stop at either end, increments wrap
at the limit and decrements stop at zero. What a strict run refuses to do instead is `refusal?`.
-/
namespace TapeMachine

structure TapeConfig where
  /-- Number of cells. -/
  capacity : Nat := 32768
  /-- Cells hold values below it. -/
  limit : Nat := 256
  deriving DecidableEq, Repr

inductive TapeConfigError
  | zeroCapacity
  | limitTooSmall (limit : Nat)
  deriving DecidableEq, Repr

def TapeConfigError.message : TapeConfigError → String
  | .zeroCapacity => "memory capacity must be at least 1 cell (got 0)"
  | .limitTooSmall limit => s!"integer limit must be greater than 1 (got {limit})"

namespace TapeConfig

def error? (config : TapeConfig) : Option TapeConfigError :=
  if config.capacity = 0 then some .zeroCapacity
  else if config.limit < 2 then some (.limitTooSmall config.limit)
  else none

def Valid (config : TapeConfig) : Prop := 1 ≤ config.capacity ∧ 2 ≤ config.limit

theorem error?_eq_none_iff {config : TapeConfig} : config.error? = none ↔ config.Valid := by
  unfold error? Valid
  grind

end TapeConfig

structure Tape where
  cells : Array Nat
  pointer : Nat
  limit : Nat
  deriving DecidableEq, Repr

namespace Tape

def blank (config : TapeConfig) : Tape :=
  { cells := Array.replicate config.capacity 0, pointer := 0, limit := config.limit }

def ofConfig (config : TapeConfig) : Except TapeConfigError Tape :=
  match config.error? with
  | some error => .error error
  | none => .ok (blank config)

def capacity (tape : Tape) : Nat := tape.cells.size

def cell (tape : Tape) : Nat := tape.cells.getD tape.pointer 0

def write (tape : Tape) (value : Nat) : Tape :=
  { tape with cells := tape.cells.setIfInBounds tape.pointer value }

def reset (tape : Tape) : Tape :=
  blank { capacity := tape.capacity, limit := tape.limit }

def moveRight (tape : Tape) : Tape :=
  { tape with pointer := min (tape.pointer + 1) (tape.capacity - 1) }

def moveLeft (tape : Tape) : Tape :=
  { tape with pointer := tape.pointer - 1 }

def increment (tape : Tape) : Tape := tape.write ((tape.cell + 1) % tape.limit)

def decrement (tape : Tape) : Tape := tape.write (tape.cell - 1)

def apply (tape : Tape) : Instruction → Tape
  | .right => tape.moveRight
  | .left => tape.moveLeft
  | .increment => tape.increment
  | .decrement => tape.decrement
  | .print | .read | .loopStart | .loopEnd => tape

/-- Why a strict run stops rather than clamp or wrap. -/
def refusal? (tape : Tape) : Instruction → Option Cause
  | .right =>
    if tape.pointer + 1 < tape.capacity then none else some (.outOfBounds tape.pointer .right)
  | .left => if tape.pointer = 0 then some (.outOfBounds tape.pointer .left) else none
  | .increment => if tape.cell + 1 < tape.limit then none else some (.overflow tape.limit)
  | .decrement => if tape.cell = 0 then some .subZero else none
  | .print | .read | .loopStart | .loopEnd => none

theorem refusal?_eq_some_iff {tape : Tape} {i : Instruction} {cause : Cause} :
    tape.refusal? i = some cause ↔
      (i = .right ∧ tape.capacity ≤ tape.pointer + 1 ∧ cause = .outOfBounds tape.pointer .right) ∨
      (i = .left ∧ tape.pointer = 0 ∧ cause = .outOfBounds tape.pointer .left) ∨
      (i = .increment ∧ tape.limit ≤ tape.cell + 1 ∧ cause = .overflow tape.limit) ∨
      (i = .decrement ∧ tape.cell = 0 ∧ cause = .subZero) := by
  cases i <;> simp [refusal?, eq_comm]

structure WellFormed (tape : Tape) : Prop where
  pointer_lt : tape.pointer < tape.capacity
  cell_lt : ∀ value ∈ tape.cells, value < tape.limit

@[simp] theorem capacity_write (tape : Tape) (value : Nat) :
    (tape.write value).capacity = tape.capacity := by
  simp [write, capacity]

@[simp] theorem pointer_write (tape : Tape) (value : Nat) :
    (tape.write value).pointer = tape.pointer := rfl

@[simp] theorem limit_write (tape : Tape) (value : Nat) :
    (tape.write value).limit = tape.limit := rfl

theorem cell_write (tape : Tape) (value : Nat) (inside : tape.pointer < tape.capacity) :
    (tape.write value).cell = value := by
  unfold capacity at inside
  simp [write, cell, inside]

theorem WellFormed.cell_lt_limit {tape : Tape} (h : tape.WellFormed) : tape.cell < tape.limit := by
  have inside : tape.pointer < tape.cells.size := h.pointer_lt
  have found : tape.cell = tape.cells[tape.pointer] := by simp [Tape.cell, inside]
  rw [found]
  exact h.cell_lt _ (Array.getElem_mem inside)

theorem WellFormed.write {tape : Tape} (h : tape.WellFormed) {value : Nat}
    (fits : value < tape.limit) : (tape.write value).WellFormed where
  pointer_lt := by
    rw [pointer_write, capacity_write]
    exact h.pointer_lt
  cell_lt := by
    intro v member
    rcases Array.mem_or_eq_of_mem_setIfInBounds member with old | rfl
    · exact h.cell_lt v old
    · exact fits

theorem WellFormed.apply {tape : Tape} (h : tape.WellFormed) (i : Instruction) :
    (tape.apply i).WellFormed := by
  have inside := h.pointer_lt
  have fits := h.cell_lt_limit
  cases i with
  | right => exact ⟨by simp only [Tape.apply, moveRight, capacity] at inside ⊢; omega, h.cell_lt⟩
  | left => exact ⟨by simp only [Tape.apply, moveLeft, capacity] at inside ⊢; omega, h.cell_lt⟩
  | increment => exact h.write (Nat.mod_lt _ (by omega))
  | decrement => exact h.write (by omega)
  | print | read | loopStart | loopEnd => exact h

theorem wellFormed_blank {config : TapeConfig} (valid : config.Valid) :
    (blank config).WellFormed where
  pointer_lt := by
    simp only [blank, capacity, Array.size_replicate]
    exact valid.1
  cell_lt := by
    intro v member
    have zero : v = 0 := (Array.mem_replicate.mp member).2
    have := valid.2
    simp only [blank]
    omega

end Tape

end TapeMachine
