import TapeMachine.Proofs.Execution.OpenLoops

/-
How far a run gets. A turn takes the cursor at most one place further and jumps only back, so all
that stands before the cursor has been carried out; a program that ends well has carried out the
whole of its code. A character that is no instruction and a closing bracket without a partner cannot
be carried out, so no run gets beyond one.
-/
namespace TapeMachine

open Source

/-- What no run can carry out. -/
inductive Source.Obstacle (code : List Char) (i : Nat) : Prop
  | unknown {c : Char} (found : code[i]? = some c) (unknown : Instruction.ofChar? c = none)
  | stray (unpaired : i ∈ (Pairing.scan code).stray)

theorem Source.no_obstacle {code : List Char} {i : Nat}
    (known : ∀ c ∈ code, ∃ i, Instruction.ofChar? c = some i) (nested : WellNested code) :
    ¬ Obstacle code i := by
  intro obstacle
  cases obstacle with
  | unknown found unknown =>
    obtain ⟨i, instruction⟩ := known _ (List.mem_of_getElem? found)
    rw [unknown] at instruction
    cases instruction
  | stray unpaired =>
    rw [Pairing.scan_eq_empty_iff.mpr nested] at unpaired
    cases unpaired

namespace State

variable {code : List Char} {rails : Bool} {control : Control} {s t : State} {halt : Halt}

def CarriesOutAt (code : Array Char) (rails : Bool) (control : Control) (s : State)
    (turns i : Nat) : Prop :=
  ∃ n t u, n < turns ∧ after? code rails control n s = some t ∧ t.cursor = i ∧
    t.turn code rails control = .next u

theorem Carries.instruction {c : Char} (carried : Carries rails s c t) :
    ∃ i, Instruction.ofChar? c = some i := by
  cases carried with
  | act kind allowed => exact ⟨_, Instruction.ofChar?_toChar _⟩
  | print | read | enter | leave | again => exact ⟨_, rfl⟩

theorem OpenLoops.cursor_next_le (before : OpenLoops code s)
    (next : s.turn code.toArray rails control = .next t) : t.cursor ≤ s.cursor + 1 := by
  obtain ⟨c, found, carried⟩ := carries_of_turn next
  cases carried with
  | again inside nonzero =>
    have back := (before.partners found inside).1.ordered
    simp only [advance]
    omega
  | act | print | read | enter | leave => exact Nat.le_refl _

theorem OpenLoops.after_cursor_le {n : Nat} (before : OpenLoops code s)
    (reached : after? code.toArray rails control n s = some t) : t.cursor ≤ s.cursor + n := by
  induction n generalizing t with
  | zero =>
    cases reached
    exact Nat.le_refl _
  | succ n ih =>
    obtain ⟨u, earlier, last⟩ := after?_snoc_iff.mp reached
    have := ih earlier
    have := (before.after earlier).cursor_next_le last
    omega

theorem OpenLoops.carriesOutAt {n : Nat} (before : OpenLoops code s)
    (reached : after? code.toArray rails control n s = some t) {i : Nat} (ahead : s.cursor ≤ i)
    (passed : i < t.cursor) : CarriesOutAt code.toArray rails control s n i := by
  induction n generalizing t with
  | zero =>
    cases reached
    omega
  | succ n ih =>
    obtain ⟨u, earlier, last⟩ := after?_snoc_iff.mp reached
    have bound := (before.after earlier).cursor_next_le last
    -- The cursor has to stop at a position before it can be beyond it.
    by_cases here : u.cursor = i
    · exact ⟨n, u, t, Nat.lt_succ_self n, earlier, here, last⟩
    · obtain ⟨m, v, w, early, rest⟩ := ih earlier (by omega)
      exact ⟨m, v, w, Nat.lt_succ_of_lt early, rest⟩

theorem OpenLoops.no_obstacle (before : OpenLoops code s)
    (next : s.turn code.toArray rails control = .next t) : ¬ Obstacle code s.cursor := by
  intro obstacle
  cases obstacle with
  | unknown found unknown =>
    obtain ⟨c, same, carried⟩ := carries_of_turn next
    rw [found] at same
    cases same
    obtain ⟨i, known⟩ := carried.instruction
    rw [unknown] at known
    cases known
  | stray unpaired =>
    have := Pairing.le_of_mem_stray (before.no_stray_after next) unpaired
    omega

theorem OpenLoops.cursor_le_obstacle {n i : Nat} (before : OpenLoops code s)
    (reached : after? code.toArray rails control n s = some t) (ahead : s.cursor ≤ i)
    (obstacle : Obstacle code i) : t.cursor ≤ i := by
  refine Nat.le_of_not_lt fun passed => ?_
  obtain ⟨m, u, v, _, earlier, rfl, next⟩ := before.carriesOutAt reached ahead passed
  exact (before.after earlier).no_obstacle next obstacle

theorem OpenLoops.wellNested (here : OpenLoops code s) (ended : s.cursor = code.length)
    (closed : s.loops = []) : WellNested code := by
  have loops := here.loops_eq
  have none := here.no_stray
  rw [ended, List.take_length] at loops none
  refine Pairing.scan_eq_empty_iff.mp ?_
  have parts : Pairing.scan code = ⟨(Pairing.scan code).pending, (Pairing.scan code).stray⟩ := rfl
  rw [parts, ← loops, none, closed]

theorem OpenLoops.ended_well (here : OpenLoops code s)
    (stops : Stops code.toArray rails control s halt) (well : halt.fault? = none) :
    halt.state = s ∧ s.cursor = code.length ∧ s.loops = [] := by
  obtain ⟨state, fault?⟩ := halt
  cases well
  obtain ⟨finished, outside, same⟩ := turn_eq_stop_well_iff.mp (turn_eq_stop_iff.mpr stops)
  rw [List.getElem?_toArray, List.getElem?_eq_none_iff] at finished
  exact ⟨same, Nat.le_antisymm here.cursor_le finished, outside⟩

end State

variable {source code : List Char} {mode : RunMode} {tape : Tape} {input : Input}
  {outcome : Outcome}

theorem ended_of_ok {summary : Summary} (accepted : sanitize source = .ok code)
    (ran : execute mode source tape input = some outcome) (done : outcome.result = .ok summary) :
    ∃ s, State.after? code.toArray mode.rails mode.control summary.steps (.start tape input) =
        some s ∧ s.cursor = code.length ∧ s.loops = [] := by
  rcases execute_eq_some_iff.mp ran with ⟨fault, rejected, _⟩ | ⟨code', halt, same, halted, rfl⟩
  · rw [accepted] at rejected
    cases rejected
  · rw [accepted] at same
    cases same
    obtain ⟨n, s, _, reached, stop⟩ := State.run_eq_some_iff.mp halted
    obtain ⟨well, rfl⟩ := Halt.result_eq_ok_iff.mp done
    have here := (State.openLoops_start code tape input).after reached
    obtain ⟨same, ended, closed⟩ := here.ended_well (State.turn_eq_stop_iff.mp stop) well
    have steps : s.steps = n := (State.after?_steps reached).trans (Nat.zero_add n)
    refine ⟨s, ?_, ended, closed⟩
    simpa only [same, steps] using reached

theorem certified_of_ok {summary : Summary} (accepted : sanitize source = .ok code)
    (ran : execute mode source tape input = some outcome) (done : outcome.result = .ok summary) :
    (∀ i < code.length,
      State.CarriesOutAt code.toArray mode.rails mode.control (.start tape input) summary.steps i) ∧
    code.length ≤ summary.steps ∧ (∀ c ∈ code, ∃ i, Instruction.ofChar? c = some i) ∧
    WellNested code := by
  obtain ⟨s, reached, ended, closed⟩ := ended_of_ok accepted ran done
  have first := State.openLoops_start code tape input
  have everywhere : ∀ i < code.length, State.CarriesOutAt code.toArray mode.rails mode.control
      (.start tape input) summary.steps i := by
    intro i inside
    rw [← ended] at inside
    exact first.carriesOutAt reached (Nat.zero_le i) inside
  refine ⟨everywhere, ?_, ?_, (first.after reached).wellNested ended closed⟩
  · have bound := first.after_cursor_le reached
    rwa [ended, State.start, Nat.zero_add] at bound
  · intro c member
    obtain ⟨i, inside, rfl⟩ := List.getElem_of_mem member
    obtain ⟨n, t, u, _, _, rfl, next⟩ := everywhere i inside
    obtain ⟨c, found, carried⟩ := State.carries_of_turn next
    rw [List.getElem?_eq_getElem inside] at found
    cases found
    exact carried.instruction

/-- A program that ends well has carried out every character of its code, all of them instructions
and their brackets well nested. No run carries out what stands at an obstacle or behind it, faults
behind it, or ends well in spite of it. -/
theorem success_certifies_whole_code (accepted : sanitize source = .ok code) (rails : Bool)
    (control : Control) (tape : Tape) (input : Input) :
    (∀ fuel outcome summary,
      execute { fuel, rails, control } source tape input = some outcome →
      outcome.result = .ok summary →
        (∀ i < code.length,
          State.CarriesOutAt code.toArray rails control (.start tape input) summary.steps i) ∧
        code.length ≤ summary.steps ∧ (∀ c ∈ code, ∃ i, Instruction.ofChar? c = some i) ∧
        WellNested code) ∧
    ∀ i, Obstacle code i →
      (∀ n s, State.after? code.toArray rails control n (.start tape input) = some s →
        s.cursor ≤ i ∧ ∀ t, s.turn code.toArray rails control = .next t → s.cursor < i) ∧
      ∀ fuel outcome, execute { fuel, rails, control } source tape input = some outcome →
        (∀ summary, outcome.result ≠ .ok summary) ∧
        ∀ position cause, outcome.result = .error (.located position cause) → position ≤ i + 1 := by
  constructor
  · intro fuel outcome summary ran done
    exact certified_of_ok accepted ran done
  · intro i obstacle
    have first := State.openLoops_start code tape input
    refine ⟨?_, ?_⟩
    · intro n s reached
      have bound := first.cursor_le_obstacle reached (Nat.zero_le i) obstacle
      refine ⟨bound, fun t next => Nat.lt_of_le_of_ne bound ?_⟩
      rintro rfl
      exact (first.after reached).no_obstacle next obstacle
    · intro fuel outcome ran
      refine ⟨?_, ?_⟩
      · intro summary done
        obtain ⟨_, _, known, nested⟩ := certified_of_ok accepted ran done
        exact no_obstacle known nested obstacle
      · intro position cause faulted
        obtain ⟨n, s, c, halt, reached, _, _, _, rfl⟩ :=
          refused_of_located_fault accepted ran faulted
        exact Nat.succ_le_succ (first.cursor_le_obstacle reached (Nat.zero_le i) obstacle)

/-- A loop that is left, and code with a stray bracket before a character that is no instruction. -/
theorem success_certifies_loop :
    (∃ n t u, n < 7 ∧ State.after? #['+', '+', '[', '-', ']'] false {} n
        (.start (.blank ⟨1, 256⟩) (.queue [])) = some t ∧ t.cursor = 4 ∧
        t.turn #['+', '+', '[', '-', ']'] false {} = .next u) ∧
      WellNested ['+', '+', '[', '-', ']'] ∧
      ∀ rails control tape input fuel outcome,
        execute { fuel, rails, control } ['+', ']', '!', '[', '<'] tape input = some outcome →
          ∀ position cause, outcome.result = .error (.located position cause) → position ≤ 2 := by
  have accepted : sanitize ['+', '+', '[', '-', ']'] = .ok ['+', '+', '[', '-', ']'] := by cbv
  have ran : execute { fuel := 8 } ['+', '+', '[', '-', ']'] (.blank ⟨1, 256⟩) (.queue []) =
      some ⟨.ok ⟨0, 7⟩, ⟨#[0], 0, 256⟩, .queue [], #[]⟩ := by
    cbv
  have misordered : sanitize ['+', ']', '!', '[', '<'] = .ok ['+', ']', '!', '[', '<'] := by cbv
  obtain ⟨certified, _⟩ :=
    success_certifies_whole_code accepted false {} (.blank ⟨1, 256⟩) (.queue [])
  obtain ⟨everywhere, _, _, nested⟩ := certified 8 _ _ ran rfl
  refine ⟨everywhere 4 (by decide), nested, ?_⟩
  intro rails control tape input fuel outcome ran position cause faulted
  obtain ⟨_, obstacles⟩ := success_certifies_whole_code misordered rails control tape input
  obtain ⟨_, faults⟩ := obstacles 1 (.stray (by decide))
  exact (faults fuel outcome ran).2 position cause faulted

end TapeMachine
