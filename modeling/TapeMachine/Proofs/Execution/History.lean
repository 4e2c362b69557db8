import TapeMachine.Proofs.Execution.Turns
import TapeMachine.Text.Numeral

/-
One tape through any history of calls. Every call, however it ends, leaves a tape of the configured
size and limit with its pointer on the tape and its cells below the limit; a run keeps this at every
turn, so no instruction reaches beyond the tape, counts past a 32-bit word or divides by zero.
-/
namespace TapeMachine

open Text (maxWord32)

namespace Tape

/-- The tape is in order and still as it was configured. -/
structure Fits (tape : Tape) (config : TapeConfig) : Prop extends tape.WellFormed where
  size_eq : tape.cells.size = config.capacity
  limit_eq : tape.limit = config.limit

/-- What the instructions count on when they use the cell under the pointer. -/
structure Safe (tape : Tape) : Prop where
  /-- The index is on the tape: what is read there is no default. -/
  access : tape.cells[tape.pointer]? = some tape.cell
  increment_le : tape.cell + 1 ≤ maxWord32
  modulus_ne_zero : tape.limit ≠ 0

variable {tape : Tape} {config : TapeConfig}

theorem Fits.safe (fits : tape.Fits config) (word : config.limit ≤ maxWord32) : tape.Safe where
  access := by
    have inside : tape.pointer < tape.cells.size := fits.pointer_lt
    simp [cell, inside]
  increment_le := by
    have below := fits.cell_lt_limit
    have := fits.limit_eq
    omega
  modulus_ne_zero := by
    have below := fits.cell_lt_limit
    omega

theorem Fits.write (fits : tape.Fits config) {value : Nat} (small : value < tape.limit) :
    (tape.write value).Fits config where
  toWellFormed := fits.toWellFormed.write small
  size_eq := (tape.capacity_write value).trans fits.size_eq
  limit_eq := fits.limit_eq

theorem size_apply (tape : Tape) (i : Instruction) :
    (tape.apply i).cells.size = tape.cells.size := by
  cases i <;> first | rfl | exact tape.capacity_write _

theorem limit_apply (tape : Tape) (i : Instruction) : (tape.apply i).limit = tape.limit := by
  cases i <;> rfl

theorem Fits.apply (fits : tape.Fits config) (i : Instruction) : (tape.apply i).Fits config where
  toWellFormed := fits.toWellFormed.apply i
  size_eq := (tape.size_apply i).trans fits.size_eq
  limit_eq := (tape.limit_apply i).trans fits.limit_eq

theorem fits_blank (valid : config.Valid) : (blank config).Fits config where
  toWellFormed := wellFormed_blank valid
  size_eq := Array.size_replicate
  limit_eq := rfl

theorem Fits.reset_eq (fits : tape.Fits config) : tape.reset = blank config := by
  unfold Tape.reset capacity
  rw [fits.size_eq, fits.limit_eq]

theorem Fits.reset (fits : tape.Fits config) (valid : config.Valid) : tape.reset.Fits config := by
  rw [fits.reset_eq]
  exact fits_blank valid

theorem ofConfig_eq_ok_iff : ofConfig config = .ok tape ↔ config.Valid ∧ tape = blank config := by
  unfold ofConfig
  rw [← TapeConfig.error?_eq_none_iff]
  cases config.error? with
  | none => simp [eq_comm]
  | some error => simp

end Tape

namespace State

variable {code : Array Char} {rails : Bool} {control : Control} {s t : State} {halt : Halt}
  {config : TapeConfig}

theorem Carries.fits {c : Char} (carried : Carries rails s c t) (fits : s.tape.Fits config) :
    t.tape.Fits config := by
  cases carried with
  | act kind allowed => exact fits.apply _
  | read accepted => exact fits.write (Token.value_lt accepted)
  | print | enter | leave | again => exact fits

theorem after?_fits (fits : s.tape.Fits config) {n : Nat}
    (reached : after? code rails control n s = some t) : t.tape.Fits config := by
  refine after?_induction (fun s => s.tape.Fits config) fits ?_ reached
  intro t u before next
  obtain ⟨c, _, _, carried⟩ := turn_eq_next_iff.mp next
  exact carried.fits before

theorem Stops.tape_eq (stops : Stops code rails control s halt) : halt.state.tape = s.tape := by
  cases stops with
  | ended finished => rw [finish_state]
  | cut found aborted => rfl
  | refused found uncut refused => cases refused <;> rfl

theorem run_fits (fits : s.tape.Fits config) {fuel : Nat}
    (ran : run code rails control fuel s = some halt) : halt.state.tape.Fits config := by
  obtain ⟨n, t, _, reached, stop⟩ := run_eq_some_iff.mp ran
  rw [(turn_eq_stop_iff.mp stop).tape_eq]
  exact after?_fits fits reached

end State

theorem execute_fits {mode : RunMode} {source : List Char} {tape : Tape} {input : Input}
    {outcome : Outcome} {config : TapeConfig} (fits : tape.Fits config)
    (ran : execute mode source tape input = some outcome) : outcome.tape.Fits config := by
  rcases execute_eq_some_iff.mp ran with ⟨fault, _, rfl⟩ | ⟨code, halt, _, halted, rfl⟩
  · exact fits
  · exact State.run_fits (s := .start tape input) fits halted

/-- A use of the machine. A run without control has the control that never cuts it short. -/
inductive Call
  | execute (source : List Char) (rails : Bool) (control : Control) (input : Input)
  | reset

inductive Call.Returns : Call → Tape → Tape → Prop
  | execute {source : List Char} {rails : Bool} {control : Control} {input : Input} {tape : Tape}
      {fuel : Nat} {outcome : Outcome}
      (ran : TapeMachine.execute { fuel, rails, control } source tape input = some outcome) :
      Returns (.execute source rails control input) tape outcome.tape
  | reset {tape : Tape} : Returns .reset tape tape.reset

inductive Call.Meets : Call → Tape → State → Prop
  | execute {source code : List Char} {rails : Bool} {control : Control} {input : Input}
      {tape : Tape} {n : Nat} {s : State} (accepted : Source.sanitize source = .ok code)
      (reached : State.after? code.toArray rails control n (.start tape input) = some s) :
      Meets (.execute source rails control input) tape s

/-- Calls in sequence that all come back, and the tape they leave. -/
inductive History (start : Tape) : List Call → Tape → Prop
  | nil : History start [] start
  | snoc {calls : List Call} {call : Call} {tape after : Tape} (before : History start calls tape)
      (last : call.Returns tape after) : History start (calls ++ [call]) after

/-- One of the calls gets to this state after those before it came back. It need not come back
itself. -/
def Meets (start : Tape) (calls : List Call) (s : State) : Prop :=
  ∃ earlier call later tape, calls = earlier ++ call :: later ∧ History start earlier tape ∧
    call.Meets tape s

theorem Call.Returns.fits {call : Call} {tape after : Tape} {config : TapeConfig}
    (valid : config.Valid) (returned : call.Returns tape after) (fits : tape.Fits config) :
    after.Fits config := by
  cases returned with
  | execute ran => exact execute_fits fits ran
  | reset => exact fits.reset valid

theorem History.fits {start tape : Tape} {calls : List Call} {config : TapeConfig}
    (valid : config.Valid) (history : History start calls tape) (fits : start.Fits config) :
    tape.Fits config := by
  induction history with
  | nil => exact fits
  | snoc before last ih => exact last.fits valid ih

theorem Call.Meets.fits {call : Call} {tape : Tape} {s : State} {config : TapeConfig}
    (met : call.Meets tape s) (fits : tape.Fits config) : s.tape.Fits config := by
  cases met with
  | execute accepted reached => exact State.after?_fits fits reached

/-- The tape stays as configured and in order after every call, and at every instruction inside the
calls its use is safe, up to the largest limit a word can hold. -/
theorem history_keeps_tape_safe {config : TapeConfig} {start : Tape}
    (accepted : Tape.ofConfig config = .ok start) (word : config.limit ≤ maxWord32)
    (calls : List Call) :
    (∀ tape, History start calls tape → tape.Fits config) ∧
      ∀ s, Meets start calls s → s.tape.Fits config ∧ s.tape.Safe := by
  obtain ⟨valid, rfl⟩ := Tape.ofConfig_eq_ok_iff.mp accepted
  have first : (Tape.blank config).Fits config := Tape.fits_blank valid
  constructor
  · intro tape history
    exact history.fits valid first
  · intro s inside
    obtain ⟨earlier, call, later, tape, _, history, met⟩ := inside
    have fits := met.fits (history.fits valid first)
    exact ⟨fits, fits.safe word⟩

/-- With the largest limit: a run that faults, a reset, and a run that is cut short. -/
theorem history_of_faulting_run_and_reset :
    ∃ tape, History (Tape.blank ⟨2, maxWord32⟩)
        [.execute ['+', '>', '>'] false {} (.queue []), .reset,
          .execute ['-', ',', '>', '+'] true { maxSteps? := some 3 } (.queue [.text ['A']])] tape ∧
      tape.pointer = 1 ∧ tape.Fits ⟨2, maxWord32⟩ := by
  have accepted : Tape.ofConfig ⟨2, maxWord32⟩ = .ok (Tape.blank ⟨2, maxWord32⟩) := rfl
  have first : execute { fuel := 3 } ['+', '>', '>'] (Tape.blank ⟨2, maxWord32⟩) (.queue []) =
      some ⟨.error (.located 3 (.outOfBounds 1 .right)), ⟨#[1, 0], 1, maxWord32⟩, .queue [],
        #[]⟩ := by
    cbv
  have second : execute { fuel := 4, rails := true, control := { maxSteps? := some 3 } }
      ['-', ',', '>', '+'] (Tape.reset ⟨#[1, 0], 1, maxWord32⟩) (.queue [.text ['A']]) =
      some ⟨.error (.stepLimitExceeded 3), ⟨#[65, 0], 1, maxWord32⟩, .queue [], #[]⟩ := by
    cbv
  have history := ((History.nil.snoc (.execute first)).snoc .reset).snoc (.execute second)
  obtain ⟨after, _⟩ := history_keeps_tape_safe accepted (Nat.le_refl maxWord32) _
  exact ⟨_, history, rfl, after _ history⟩

end TapeMachine
