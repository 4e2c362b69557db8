import TapeMachine.Proofs.Execution.StepLimit

/-
Faults are raised before their instruction has an effect. The tape and the output a fault leaves are
those of the moment before the instruction, which a step limit of as many instructions as went
before leaves too; only a refused token is gone. A rejected program has no effect at all.
-/
namespace TapeMachine

open Source

theorem Instruction.ne_comma_of_actsOnTape {i : Instruction} (kind : i.actsOnTape = true) :
    i.toChar ≠ ',' := by
  cases i <;> first | decide | cases kind

namespace State

/-- The run without control carries out so many instructions and no more. -/
def CarriesOut (code : Array Char) (rails : Bool) (s : State) (k : Nat) : Prop :=
  ∀ n, (∃ t, after? code rails {} n s = some t) ↔ n ≤ k

theorem Refuses.keeps {rails : Bool} {s : State} {c : Char} {halt : Halt}
    (refused : Refuses rails s c halt) :
    halt.state.tape = s.tape ∧ halt.state.output = s.output ∧
      halt.state.input = if c = ',' then s.input.next.2 else s.input := by
  cases refused with
  | act strict refused =>
    have other := Instruction.ne_comma_of_actsOnTape (Tape.actsOnTape_of_refusal refused)
    simp [other]
  | read rejected => simp
  | print unprintable => simp
  | stray outside => simp
  | unknown unknown =>
    have other : c ≠ ',' := by
      rintro rfl
      cases unknown
    simp [other]

end State

/-- A rejected program leaves everything as it was. If an accepted one comes to a fault at a
position after so many instructions, a step limit of as many cuts it off with the same tape and the
same output; the input differs by one token if the fault is at a comma, and not at all elsewhere. -/
theorem faults_are_atomic (rails : Bool) (source : List Char) (tape : Tape) (input : Input) :
    (∀ fault mode, sanitize source = .error fault →
      execute mode source tape input = some ⟨.error fault, tape, input, #[]⟩) ∧
    ∀ code outcome position cause, sanitize source = .ok code →
      Ends rails {} source tape input outcome →
      outcome.result = .error (.located position cause) →
        ∃ k left c, State.CarriesOut code.toArray rails (.start tape input) k ∧
          (∀ fuel, k < fuel →
            execute { fuel, rails, control := { maxSteps? := some k } } source tape input =
              some ⟨.error (.stepLimitExceeded k), outcome.tape, left, outcome.output⟩) ∧
          0 < position ∧ code[position - 1]? = some c ∧
          outcome.input = if c = ',' then left.next.2 else left := by
  constructor
  · intro fault mode rejected
    exact execute_rejected rejected mode
  · intro code outcome position cause accepted ends faulted
    obtain ⟨k, s, reached, ⟨_, _, rfl⟩ | ⟨c, halt, found, refused, rfl⟩⟩ :=
      ends.ended_or_refused accepted
    · cases faulted
    · obtain ⟨_, other, fault⟩ := refused.located
      rw [Halt.result_eq_error_iff, fault] at faulted
      cases faulted
      have stop := refused.turn_eq found
      have inside := (List.getElem?_eq_some_iff.mp found).1
      have cut := Underway.execute_limited ⟨code, accepted, reached, inside⟩
      obtain ⟨tapeKept, outputKept, inputLeft⟩ := refused.keeps
      refine ⟨k, s.input, c, State.exists_after?_iff_le reached stop, ?_, ?_, found, inputLeft⟩
      · intro fuel enough
        rw [execute_mono enough cut]
        simp only [Halt.outcome, tapeKept, outputKept]
      · exact Nat.succ_pos s.cursor

/-- A token of two characters in the second pass of a loop, and a program that is rejected. -/
theorem faults_are_atomic_in_second_pass :
    (∃ left, left.next.2 = .queue [] ∧
      execute { fuel := 6, control := { maxSteps? := some 5 } } ['+', '[', ',', '.', ']']
          (.blank ⟨1, 256⟩) (.queue [.text ['A'], .text ['B', 'C']]) =
        some ⟨.error (.stepLimitExceeded 5), ⟨#[65], 0, 256⟩, left, #['A']⟩) ∧
    execute { fuel := 0 } ['+', '['] (.blank ⟨1, 256⟩) (.queue []) =
      some ⟨.error (.located 2 .unterminatedLoops), ⟨#[0], 0, 256⟩, .queue [], #[]⟩ := by
  have accepted : sanitize ['+', '[', ',', '.', ']'] = .ok ['+', '[', ',', '.', ']'] := by cbv
  have ends : Ends false {} ['+', '[', ',', '.', ']'] (.blank ⟨1, 256⟩)
      (.queue [.text ['A'], .text ['B', 'C']])
      ⟨.error (.located 3 (.wrongLength ['B', 'C'])), ⟨#[65], 0, 256⟩, .queue [], #['A']⟩ := by
    refine ⟨6, ?_⟩
    simp only [execute, accepted]
    rfl
  have rejected : sanitize ['+', '['] = .error (.located 2 .unterminatedLoops) := by cbv
  obtain ⟨k, left, c, carriesOut, cut, _, found, rest⟩ :=
    (faults_are_atomic false _ (.blank ⟨1, 256⟩) _).2 _ _ 3 _ accepted ends rfl
  have five : k = 5 := by
    have atLeast := (carriesOut 5).mp ⟨_, rfl⟩
    have atMost : ¬ 6 ≤ k := by
      intro six
      obtain ⟨t, reached⟩ := (carriesOut 6).mpr six
      cases reached
    omega
  subst five
  cases found
  exact ⟨⟨left, rest.symm, cut 6 (by decide)⟩,
    (faults_are_atomic false _ (.blank ⟨1, 256⟩) (.queue [])).1 _ _ rejected⟩

end TapeMachine
