import TapeMachine.CommandLine.Run
import TapeMachine.Proofs.Execution.Atomicity

/-
A program under a timeout. If it ends in time the answer is that without a timeout. If it does not,
what it has printed is shown as it is, and a program that would have ended later prints that first:
turns only ever add to the output.
-/
namespace TapeMachine

namespace State

variable {code : Array Char} {rails : Bool} {control : Control} {s t : State} {c : Char}
variable {halt : Halt}

theorem Carries.output_grows (carried : Carries rails s c t) :
    s.output.toList <+: t.output.toList := by
  cases carried with
  | print printable =>
    rw [advance, Array.toList_push]
    exact List.prefix_append s.output.toList _
  | act | read | enter | leave | again => exact List.prefix_rfl

theorem Stops.output_eq (stops : Stops code rails control s halt) :
    halt.state.output = s.output := by
  cases stops with
  | ended finished => rw [finish_state]
  | cut found aborted => rfl
  | refused found uncut refused => exact refused.keeps.2.1

theorem printed_of_next (fuel : Nat) (next : s.turn code rails control = .next t) :
    printed code rails control (fuel + 1) s = printed code rails control fuel t := by
  simp only [printed, next]

theorem printed_of_stop (fuel : Nat) (stop : s.turn code rails control = .stop halt) :
    printed code rails control (fuel + 1) s = s.output := by
  simp only [printed, stop]
  exact (turn_eq_stop_iff.mp stop).output_eq

theorem output_prefix_printed (fuel : Nat) (s : State) :
    s.output.toList <+: (printed code rails control fuel s).toList := by
  induction fuel generalizing s with
  | zero => exact List.prefix_rfl
  | succ fuel ih =>
    cases answer : s.turn code rails control with
    | stop halt =>
      simp only [printed_of_stop _ answer, List.prefix_rfl]
    | next t =>
      obtain ⟨c, _, _, carried⟩ := turn_eq_next_iff.mp answer
      rw [printed_of_next fuel answer]
      exact carried.output_grows.trans (ih t)

theorem printed_grows (fuel more : Nat) (s : State) :
    (printed code rails control fuel s).toList <+:
      (printed code rails control (fuel + more) s).toList := by
  induction fuel generalizing s with
  | zero => exact output_prefix_printed _ s
  | succ fuel ih =>
    rw [Nat.succ_add]
    cases answer : s.turn code rails control with
    | stop halt =>
      simp only [printed_of_stop _ answer, List.prefix_rfl]
    | next t =>
      rw [printed_of_next fuel answer, printed_of_next (fuel + more) answer]
      exact ih t

theorem printed_of_after {n : Nat} (reached : after? code rails control n s = some t) :
    printed code rails control n s = t.output := by
  induction n generalizing s with
  | zero =>
    cases reached
    rfl
  | succ n ih =>
    obtain ⟨u, next, rest⟩ := after?_succ_iff.mp reached
    rw [printed_of_next n next]
    exact ih rest

theorem printed_of_run {fuel : Nat} (ran : run code rails control fuel s = some halt) :
    printed code rails control fuel s = halt.state.output := by
  induction fuel generalizing s with
  | zero => cases ran
  | succ fuel ih =>
    cases answer : s.turn code rails control with
    | stop last =>
      rw [run_of_stop fuel answer] at ran
      cases ran
      rw [printed_of_stop fuel answer, (turn_eq_stop_iff.mp answer).output_eq]
    | next t =>
      rw [run_of_next fuel answer] at ran
      rw [printed_of_next fuel answer]
      exact ih ran

end State

variable {source : List Char} {tape : Tape} {input : Input}

theorem executePrinting_eq {mode : RunMode} {outcome : Outcome}
    (ran : execute mode source tape input = some outcome) :
    executePrinting mode source tape input = outcome.output := by
  rcases execute_eq_some_iff.mp ran with ⟨_, rejected, rfl⟩ | ⟨code, halt, accepted, halted, rfl⟩
  · rw [executePrinting, rejected]
  · rw [executePrinting, accepted]
    exact State.printed_of_run halted

theorem executePrinting_grows {fuel more : Nat} (enough : fuel ≤ more) (rails : Bool)
    (control : Control) :
    (executePrinting { fuel, rails, control } source tape input).toList <+:
      (executePrinting { fuel := more, rails, control } source tape input).toList := by
  obtain ⟨extra, rfl⟩ := Nat.exists_eq_add_of_le enough
  unfold executePrinting
  cases Source.sanitize source with
  | error fault => exact List.prefix_rfl
  | ok code => exact State.printed_grows fuel extra (.start tape input)

theorem exists_after?_of_execute_eq_none {mode : RunMode}
    (unfinished : execute mode source tape input = none) :
    ∃ code s, Source.sanitize source = .ok code ∧
      State.after? code.toArray mode.rails mode.control mode.fuel (.start tape input) = some s ∧
      executePrinting mode source tape input = s.output := by
  cases verdict : Source.sanitize source with
  | error fault =>
    rw [execute_rejected verdict] at unfinished
    cases unfinished
  | ok code =>
    cases answer :
        State.after? code.toArray mode.rails mode.control mode.fuel (.start tape input) with
    | some s =>
      refine ⟨code, s, rfl, answer, ?_⟩
      rw [executePrinting, verdict]
      exact State.printed_of_after answer
    | none =>
      obtain ⟨halt, ran⟩ := State.after?_eq_none_iff.mp answer
      rw [execute_eq_some_iff.mpr (.inr ⟨code, halt, verdict, ran, rfl⟩)] at unfinished
      cases unfinished

namespace CommandLine.Run

variable {world : Surroundings} {plan : Plan}

/-- Either a program ends in time, and is answered as without a timeout, or it is cut short after
the turns that fit into the time. Then the output is that of those turns, and begins the output of
the whole program if that comes to an end. -/
theorem runSource_of_timed {timeout : Timeout} (timed : plan.timeout? = some timeout)
    (program : String) (fuel : Nat) (source : List Char) (tape : Tape) :
    (∃ outcome, execute (plan.mode fuel) source tape (.stream world.stdin) = some outcome ∧
      runSource program fuel world plan tape source = .ok (finished program plan source outcome) ∧
      runSource program fuel world { plan with timeout? := none } tape source =
        .ok (finished program plan source outcome)) ∨
    ∃ code s, Source.sanitize source = .ok code ∧
      State.after? code.toArray plan.rails { maxSteps? := plan.maxSteps? }
        (min fuel timeout.turns) (.start tape (.stream world.stdin)) = some s ∧
      runSource program fuel world plan tape source = .ok (timedOut timeout s.output) ∧
      ∀ outcome,
        Ends plan.rails { maxSteps? := plan.maxSteps? } source tape (.stream world.stdin) outcome →
          s.output.toList <+: outcome.output.toList := by
  have mode : plan.mode fuel =
      { fuel := min fuel timeout.turns, rails := plan.rails
        control := { maxSteps? := plan.maxSteps? } } := by
    rw [Plan.mode, timed]
  cases answer : execute (plan.mode fuel) source tape (.stream world.stdin) with
  | some outcome =>
    have untimed : execute (Plan.mode { plan with timeout? := none } fuel) source tape
        (.stream world.stdin) = some outcome := by
      rw [mode] at answer
      exact execute_mono (Nat.min_le_left fuel timeout.turns) answer
    refine .inl ⟨outcome, rfl, ?_, ?_⟩
    · simp only [runSource, answer]
    · simp only [runSource, untimed]
      rfl
  | none =>
    obtain ⟨code, s, accepted, reached, output⟩ := exists_after?_of_execute_eq_none answer
    refine .inr ⟨code, s, accepted, ?_, ?_, ?_⟩
    · rwa [mode] at reached
    · simp only [runSource, answer, timed, output]
    · intro outcome ends
      obtain ⟨enough, ran⟩ := ends
      have longer := execute_mono (Nat.le_max_right (min fuel timeout.turns) enough) ran
      rw [← output, mode, ← executePrinting_eq longer]
      exact executePrinting_grows (Nat.le_max_left _ _) plan.rails _

end CommandLine.Run

end TapeMachine
