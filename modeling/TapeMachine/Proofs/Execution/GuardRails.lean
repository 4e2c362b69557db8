import TapeMachine.Proofs.Execution.Turns
import TapeMachine.Proofs.Source.Sanitize

/-
Guard rails only soften three faults. A strict run and a run with guard rails from one state take
the same turns for as long as the strict one goes on, and they stop alike unless the strict one
stops at a fault that guard rails soften; with guard rails that fault never arises.
-/
namespace TapeMachine

/-- The faults of moves and changes of a cell, which guard rails clamp or wrap instead. -/
def Cause.isSoftened : Cause → Bool
  | .outOfBounds _ _ | .overflow _ | .subZero => true
  | _ => false

def Fault.isSoftened : Fault → Bool
  | .located _ cause => cause.isSoftened
  | .stepLimitExceeded _ | .cancelled => false

def Outcome.Softened (outcome : Outcome) : Prop :=
  ∃ fault, outcome.result = .error fault ∧ fault.isSoftened = true

theorem Tape.isSoftened_of_refusal {tape : Tape} {i : Instruction} {cause : Cause}
    (refused : tape.refusal? i = some cause) : cause.isSoftened = true := by
  rcases refusal?_eq_some_iff.mp refused with
    ⟨_, _, rfl⟩ | ⟨_, _, rfl⟩ | ⟨_, _, rfl⟩ | ⟨_, _, rfl⟩ <;> rfl

theorem Token.isSoftened_of_error {token : Token} {limit : Nat} {cause : Cause}
    (rejected : token.value limit = .error cause) : cause.isSoftened = false := by
  rcases value_eq_error_iff.mp rejected with
    ⟨_, _, rfl⟩ | ⟨_, _, _, rfl⟩ | ⟨_, _, _, rfl⟩ | ⟨_, _, _, _, rfl⟩ <;> rfl

theorem Source.isSoftened_of_rejected {source : List Char} {fault : Fault}
    (rejected : sanitize source = .error fault) : fault.isSoftened = false := by
  obtain ⟨position, cause, defect, rfl⟩ := sanitize_eq_error_iff.mp rejected
  rcases defect?_eq_some_iff.mp defect with ⟨_, _, _, rfl⟩ | ⟨_, _, _, _, rfl⟩ <;> rfl

namespace State

variable {code : Array Char} {control : Control} {s t : State} {halt : Halt} {c : Char}

theorem abort?_not_softened {steps : Nat} {fault : Fault}
    (aborted : control.abort? steps = some fault) : fault.isSoftened = false := by
  unfold Control.abort? at aborted
  grind [Fault.isSoftened]

theorem Carries.with_rails (carried : Carries false s c t) : Carries true s c t := by
  cases carried with
  | act kind allowed => exact .act kind (.inl rfl)
  | print printable => exact .print printable
  | read accepted => exact .read accepted
  | enter => exact .enter
  | leave inside zero => exact .leave inside zero
  | again inside nonzero => exact .again inside nonzero

/-- A strict fault stands with guard rails or is one that they soften, met in an unchanged state. -/
theorem Refuses.with_rails (refused : Refuses false s c halt) :
    Refuses true s c halt ∨
      halt.state = s ∧ ∃ fault, halt.fault? = some fault ∧ fault.isSoftened = true := by
  cases refused with
  | act strict refused => exact .inr ⟨rfl, _, rfl, Tape.isSoftened_of_refusal refused⟩
  | print unprintable => exact .inl (.print unprintable)
  | read rejected => exact .inl (.read rejected)
  | stray outside => exact .inl (.stray outside)
  | unknown unknown => exact .inl (.unknown unknown)

theorem Refuses.not_softened (refused : Refuses true s c halt) {fault : Fault}
    (faulted : halt.fault? = some fault) : fault.isSoftened = false := by
  cases refused with
  | act strict refused => cases strict
  | read rejected =>
    cases faulted
    exact Token.isSoftened_of_error rejected
  | print | stray | unknown =>
    cases faulted
    rfl

theorem turn_with_rails (next : s.turn code false control = .next t) :
    s.turn code true control = .next t := by
  obtain ⟨c, found, uncut, carried⟩ := turn_eq_next_iff.mp next
  exact turn_eq_next_iff.mpr ⟨c, found, uncut, carried.with_rails⟩

theorem after?_with_rails {n : Nat} (reached : after? code false control n s = some t) :
    after? code true control n s = some t :=
  after?_map id turn_with_rails reached

theorem Stops.with_rails (stops : Stops code false control s halt) :
    Stops code true control s halt ∨
      halt.state = s ∧ ∃ fault, halt.fault? = some fault ∧ fault.isSoftened = true := by
  cases stops with
  | ended finished => exact .inl (.ended finished)
  | cut found aborted => exact .inl (.cut found aborted)
  | refused found uncut refused =>
    rcases refused.with_rails with refused | softened
    · exact .inl (.refused found uncut refused)
    · exact .inr softened

theorem Stops.not_softened (stops : Stops code true control s halt) {fault : Fault}
    (faulted : halt.fault? = some fault) : fault.isSoftened = false := by
  cases stops with
  | ended finished =>
    unfold finish at faulted
    split at faulted
    · cases faulted
    · cases faulted
      rfl
  | cut found aborted =>
    cases faulted
    exact abort?_not_softened aborted
  | refused found uncut refused => exact refused.not_softened faulted

end State

variable {mode : RunMode} {source : List Char} {tape : Tape} {input : Input} {outcome : Outcome}

theorem Outcome.Softened.stop (softened : outcome.Softened)
    (ran : execute mode source tape input = some outcome) :
    ∃ code k s halt, Source.sanitize source = .ok code ∧
      State.after? code.toArray mode.rails mode.control k (.start tape input) = some s ∧
      s.turn code.toArray mode.rails mode.control = .stop halt ∧ halt.outcome = outcome ∧
      ∃ fault, halt.fault? = some fault ∧ fault.isSoftened = true := by
  obtain ⟨fault, faulted, soft⟩ := softened
  rcases execute_eq_some_iff.mp ran with
    ⟨other, rejected, rfl⟩ | ⟨code, halt, accepted, halted, rfl⟩
  · cases faulted
    rw [Source.isSoftened_of_rejected rejected] at soft
    cases soft
  · obtain ⟨k, s, _, reached, stop⟩ := State.run_eq_some_iff.mp halted
    have same := Halt.result_eq_error_iff.mp faulted
    exact ⟨code, k, s, halt, accepted, reached, stop, rfl, fault, same, soft⟩

theorem not_softened_of_rails (rails : mode.rails = true)
    (ran : execute mode source tape input = some outcome) : ¬ outcome.Softened := by
  intro softened
  obtain ⟨code, k, s, halt, _, _, stop, _, fault, faulted, soft⟩ := softened.stop ran
  rw [rails] at stop
  have hard := (State.turn_eq_stop_iff.mp stop).not_softened faulted
  rw [hard] at soft
  cases soft

theorem execute_with_rails {control : Control} {fuel : Nat}
    (ran : execute { fuel, rails := false, control } source tape input = some outcome)
    (kept : ¬ outcome.Softened) :
    execute { fuel, rails := true, control } source tape input = some outcome := by
  rcases execute_eq_some_iff.mp ran with rejected | ⟨code, halt, accepted, halted, rfl⟩
  · exact execute_eq_some_iff.mpr (.inl rejected)
  · obtain ⟨n, s, early, reached, stop⟩ := State.run_eq_some_iff.mp halted
    rcases (State.turn_eq_stop_iff.mp stop).with_rails with stops | ⟨_, fault, faulted, softened⟩
    · have railed := State.run_eq_some_iff.mpr
        ⟨n, s, early, State.after?_with_rails reached, State.turn_eq_stop_iff.mpr stops⟩
      exact execute_eq_some_iff.mpr (.inr ⟨code, halt, accepted, railed, rfl⟩)
    · exact absurd ⟨fault, Halt.result_eq_error_iff.mpr faulted, softened⟩ kept

/-- With guard rails no program stops at a softened fault. A strict program that does not either
ends alike with guard rails; one that does so after some number of instructions has the state, and
so tape, input and output, that guard rails lead to after as many. -/
theorem guard_rails_extend_strict_programs (source : List Char) (control : Control) (tape : Tape)
    (input : Input) (fuel : Nat) (outcome : Outcome) :
    (execute { fuel, rails := true, control } source tape input = some outcome →
      ¬ outcome.Softened) ∧
    (execute { fuel, rails := false, control } source tape input = some outcome →
      ¬ outcome.Softened →
        execute { fuel, rails := true, control } source tape input = some outcome) ∧
    (execute { fuel, rails := false, control } source tape input = some outcome →
      outcome.Softened →
        ∃ code k s halt, Source.sanitize source = .ok code ∧
          State.after? code.toArray false control k (.start tape input) = some s ∧
          s.turn code.toArray false control = .stop halt ∧ halt.outcome = outcome ∧
          State.after? code.toArray true control k (.start tape input) = some s ∧
          s.steps = k ∧ s.tape = outcome.tape ∧ s.output = outcome.output ∧
          s.input = outcome.input) := by
  refine ⟨not_softened_of_rails rfl, execute_with_rails, ?_⟩
  intro ran softened
  obtain ⟨code, k, s, halt, accepted, reached, stop, ended, fault, faulted, soft⟩ :=
    softened.stop ran
  have steps := State.after?_steps reached
  rcases (State.turn_eq_stop_iff.mp stop).with_rails with stops | ⟨same, _⟩
  · rw [stops.not_softened faulted] at soft
    cases soft
  · refine ⟨code, k, s, halt, accepted, reached, stop, ended, State.after?_with_rails reached, ?_⟩
    subst same
    subst ended
    exact ⟨steps.trans (Nat.zero_add k), rfl, rfl, rfl⟩

/-- A strict program gets below zero after two instructions, which guard rails take alike. -/
theorem guard_rails_take_strict_turns_below_zero :
    ∃ code k s, Source.sanitize ['+', '-', '-'] = .ok code ∧ s.steps = k ∧
      State.after? code.toArray true {} k (.start (Tape.blank ⟨1, 256⟩) (.queue [])) = some s ∧
      s.tape = Tape.blank ⟨1, 256⟩ ∧ s.output = #[] := by
  have ran : execute { fuel := 3 } ['+', '-', '-'] (Tape.blank ⟨1, 256⟩) (.queue []) =
      some ⟨.error (.located 3 .subZero), Tape.blank ⟨1, 256⟩, .queue [], #[]⟩ := by
    cbv
  obtain ⟨code, k, s, _, accepted, _, _, _, reached, steps, tape, output, _⟩ :=
    (guard_rails_extend_strict_programs ['+', '-', '-'] {} (Tape.blank ⟨1, 256⟩) (.queue [])
      3 _).2.2 ran ⟨_, rfl, rfl⟩
  exact ⟨code, k, s, accepted, steps, reached, tape, output⟩

end TapeMachine
