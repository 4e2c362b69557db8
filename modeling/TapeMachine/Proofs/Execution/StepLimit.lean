import TapeMachine.Proofs.Execution.OpenLoops

/-
Runs that are cut short after a number of instructions. As long as a control does not abort, a run
under it takes the turns of a run without control; a step limit aborts on the first turn beyond it.
So a limited program always comes to an end: it is cut exactly if the program without a limit has
another instruction before it after so many, and ends as that program does if it has not.
-/
namespace TapeMachine

namespace Control

variable {control : Control} {steps limit : Nat}

theorem abort?_none (steps : Nat) : ({} : Control).abort? steps = none := rfl

theorem abort?_cancelled (raised : control.isCancelled steps = true) :
    control.abort? steps = some .cancelled := by
  simp [abort?, raised]

theorem abort?_below_limit (below : steps < limit) :
    ({ maxSteps? := some limit } : Control).abort? steps = none := by
  simp [abort?, isCancelled, below]

theorem abort?_at_limit (reached : limit ≤ steps) :
    ({ maxSteps? := some limit } : Control).abort? steps = some (.stepLimitExceeded limit) := by
  simp [abort?, isCancelled, reached]

end Control

namespace State

variable {code : Array Char} {rails : Bool} {control : Control} {s t : State} {n : Nat}

theorem turn_uncut (uncut : control.abort? s.steps = none) :
    s.turn code rails control = s.turn code rails {} := by
  simp only [turn, uncut, Control.abort?_none]

theorem after?_uncut (uncut : ∀ k < n, control.abort? (s.steps + k) = none) :
    after? code rails control n s = after? code rails {} n s := by
  induction n generalizing s with
  | zero => rfl
  | succ n ih =>
    have first := uncut 0 (Nat.succ_pos n)
    simp only [after?, turn_uncut first]
    cases answer : s.turn code rails {} with
    | stop halt => rfl
    | next t =>
      have steps : t.steps = s.steps + 1 := after?_steps (after?_one_iff.mpr answer)
      refine ih fun k less => ?_
      rw [steps, Nat.add_assoc, Nat.add_comm 1]
      exact uncut (k + 1) (Nat.succ_lt_succ less)

theorem run_uncut (uncut : ∀ k < n, control.abort? (s.steps + k) = none)
    (idle : ∀ t, after? code rails {} n s = some t → code[t.cursor]? = none) :
    ∃ halt, run code rails control (n + 1) s = some halt ∧
      run code rails {} (n + 1) s = some halt := by
  cases answer : after? code rails {} n s with
  | some t =>
    -- Beyond the end of the code there is no instruction for the control to come before.
    have ended := idle t answer
    have same := (after?_uncut uncut).trans answer
    refine ⟨t.finish code, ?_, ?_⟩
    · rw [run_of_after same, run_of_stop 0 (turn_at_end ended)]
    · rw [run_of_after answer, run_of_stop 0 (turn_at_end ended)]
  | none =>
    obtain ⟨halt, ran⟩ := after?_eq_none_iff.mp answer
    obtain ⟨m, t, early, reached, stop⟩ := run_eq_some_iff.mp ran
    have same : after? code rails control m s = some t :=
      (after?_uncut fun k less => uncut k (Nat.lt_trans less early)).trans reached
    have here : control.abort? t.steps = none := by
      rw [after?_steps reached]
      exact uncut m early
    have stops := (turn_uncut here).trans stop
    exact ⟨halt, run_eq_some_iff.mpr ⟨m, t, Nat.lt_succ_of_lt early, same, stops⟩, run_add ran 1⟩

end State

open Source

variable {rails : Bool} {source code : List Char} {tape : Tape} {input : Input}
  {outcome : Outcome} {n : Nat} {s t : State}

/-- Without control, the program is in this state after so many instructions and has another one
before it, whether or not that one will fault. -/
def Underway (rails : Bool) (source : List Char) (tape : Tape) (input : Input) (n : Nat)
    (s : State) : Prop :=
  ∃ code, sanitize source = .ok code ∧
    State.after? code.toArray rails {} n (.start tape input) = some s ∧ s.cursor < code.length

theorem Underway.unique (one : Underway rails source tape input n s)
    (two : Underway rails source tape input n t) : s = t := by
  obtain ⟨code, accepted, reached, _⟩ := one
  obtain ⟨_, same, reached', _⟩ := two
  rw [accepted] at same
  cases same
  rw [reached] at reached'
  exact Option.some.inj reached'

theorem Underway.steps_eq (underway : Underway rails source tape input n s) : s.steps = n := by
  obtain ⟨code, _, reached, _⟩ := underway
  exact (State.after?_steps reached).trans (Nat.zero_add n)

theorem Underway.execute_limited (underway : Underway rails source tape input n s) :
    execute { fuel := n + 1, rails, control := { maxSteps? := some n } } source tape input =
      some ⟨.error (.stepLimitExceeded n), s.tape, s.input, s.output⟩ := by
  have steps := underway.steps_eq
  obtain ⟨code, accepted, reached, inside⟩ := underway
  have limited : State.after? code.toArray rails { maxSteps? := some n } n (.start tape input) =
      some s := by
    refine (State.after?_uncut fun k less => ?_).trans reached
    exact Control.abort?_below_limit (by simpa [State.start] using less)
  have found : code.toArray[s.cursor]? = some code[s.cursor] := by simp [inside]
  have aborted := Control.abort?_at_limit (Nat.le_of_eq steps.symm)
  have stop : s.turn code.toArray rails { maxSteps? := some n } = .stop ⟨s, _⟩ :=
    State.turn_eq_stop_iff.mpr (.cut found aborted)
  have ran := (State.run_of_after limited 1).trans (State.run_of_stop 0 stop)
  exact execute_eq_some_iff.mpr (.inr ⟨code, _, accepted, ran, rfl⟩)

theorem execute_uncut {control : Control} (uncut : ∀ k < n, control.abort? k = none)
    (idle : ¬ ∃ s, Underway rails source tape input n s) :
    ∃ outcome, execute { fuel := n + 1, rails, control } source tape input = some outcome ∧
      Ends rails {} source tape input outcome := by
  cases verdict : sanitize source with
  | error fault => exact ⟨_, execute_rejected verdict _, 0, execute_rejected verdict _⟩
  | ok code =>
    have uncut' : ∀ k < n, control.abort? ((State.start tape input).steps + k) = none := by
      simpa [State.start] using uncut
    have atEnd : ∀ t, State.after? code.toArray rails {} n (.start tape input) = some t →
        code.toArray[t.cursor]? = none := by
      intro t reached
      rw [List.getElem?_toArray, List.getElem?_eq_none_iff]
      exact Nat.le_of_not_lt fun inside => idle ⟨t, code, verdict, reached, inside⟩
    obtain ⟨halt, ran, free⟩ := State.run_uncut uncut' atEnd
    exact ⟨halt.outcome, execute_eq_some_iff.mpr (.inr ⟨code, halt, verdict, ran, rfl⟩),
      (ends_iff_halts verdict).mpr ⟨halt, ⟨n + 1, free⟩, rfl⟩⟩

theorem execute_limited_of_idle (idle : ¬ ∃ s, Underway rails source tape input n s) :
    ∃ outcome,
      execute { fuel := n + 1, rails, control := { maxSteps? := some n } } source tape input =
        some outcome ∧
      outcome.result ≠ .error (.stepLimitExceeded n) ∧
      Ends rails {} source tape input outcome ∧
        ∀ m, n ≤ m → Ends rails { maxSteps? := some m } source tape input outcome := by
  obtain ⟨outcome, limited, ends⟩ :=
    execute_uncut (fun _ below => Control.abort?_below_limit below) idle
  refine ⟨outcome, limited, ?_, ends, ?_⟩
  · intro cut
    obtain ⟨_, _, located⟩ := ends.located cut
    cases located
  · intro m higher
    obtain ⟨other, same, ends'⟩ := execute_uncut
      (fun _ below => Control.abort?_below_limit (Nat.lt_of_lt_of_le below higher)) idle
    obtain rfl := ends.unique ends'
    exact ⟨n + 1, same⟩

/-- Up to the turn on which it stops a program is under way, and on that turn too if it is a fault
that it stops at. -/
theorem underway_iff_of_stop {k : Nat} {halt : Halt} (accepted : sanitize source = .ok code)
    (reached : State.after? code.toArray rails {} k (.start tape input) = some s)
    (stop : s.turn code.toArray rails {} = .stop halt) :
    (∃ t, Underway rails source tape input n t) ↔ n < k ∨ (n = k ∧ s.cursor < code.length) := by
  constructor
  · intro underway
    obtain ⟨t, _, same, reached', inside⟩ := underway
    rw [accepted] at same
    cases same
    have early := (State.exists_after?_iff_le reached stop n).mp ⟨t, reached'⟩
    rcases Nat.lt_or_eq_of_le early with less | rfl
    · exact .inl less
    · rw [reached] at reached'
      cases reached'
      exact .inr ⟨rfl, inside⟩
  · rintro (less | ⟨rfl, inside⟩)
    · obtain ⟨more, rfl⟩ := Nat.exists_eq_add_of_lt less
      rw [Nat.add_assoc, State.after?_add] at reached
      obtain ⟨t, first, later⟩ := Option.bind_eq_some_iff.mp reached
      obtain ⟨u, next, _⟩ := State.after?_succ_iff.mp later
      obtain ⟨c, found, _⟩ := State.carries_of_turn next
      exact ⟨t, code, accepted, first, (List.getElem?_eq_some_iff.mp found).1⟩
    · exact ⟨s, code, accepted, reached, inside⟩

theorem underway_iff_lt_steps {summary : Summary} (ends : Ends rails {} source tape input outcome)
    (done : outcome.result = .ok summary) :
    (∃ s, Underway rails source tape input n s) ↔ n < summary.steps := by
  cases verdict : sanitize source with
  | error fault =>
    rw [(ends_of_rejected_iff verdict).mp ends] at done
    cases done
  | ok code =>
    obtain ⟨k, s, halt, reached, stop, rfl, ⟨ended, rfl⟩ | ⟨c, _, refused⟩⟩ := ends.stop verdict
    · obtain ⟨_, rfl⟩ := Halt.result_eq_ok_iff.mp done
      have outside := Nat.not_lt.mpr (List.getElem?_eq_none_iff.mp ended)
      have steps := (State.after?_steps reached).trans (Nat.zero_add k)
      rw [underway_iff_of_stop verdict reached stop, State.finish_state, steps]
      simp [outside]
    · obtain ⟨_, cause, fault⟩ := refused.located
      simp [Halt.outcome, fault] at done

theorem execute_without_code (empty : sanitize source = .ok []) (control : Control) :
    execute { fuel := 1, rails, control } source tape input =
      some ⟨.ok ⟨0, 0⟩, tape, input, #[]⟩ := by
  have stop : (State.start tape input).turn #[] rails control = .stop ⟨.start tape input, none⟩ :=
    State.turn_at_end rfl
  exact execute_eq_some_iff.mpr (.inr ⟨[], _, empty, State.run_of_stop 0 stop, rfl⟩)

theorem execute_cancelled {control : Control} {c : Char} {cs : List Char}
    (accepted : sanitize source = .ok (c :: cs)) (raised : control.isCancelled 0 = true) :
    execute { fuel := 1, rails, control } source tape input =
      some ⟨.error .cancelled, tape, input, #[]⟩ := by
  have found : (c :: cs).toArray[(State.start tape input).cursor]? = some c := rfl
  have stop : (State.start tape input).turn (c :: cs).toArray rails control =
      .stop ⟨.start tape input, some .cancelled⟩ :=
    State.turn_eq_stop_iff.mpr (.cut found (Control.abort?_cancelled raised))
  exact execute_eq_some_iff.mpr (.inr ⟨_, _, accepted, State.run_of_stop 0 stop, rfl⟩)

/-- A limited program always ends. It is cut exactly if it is under way after as many instructions
as the limit allows, and then it is left as it is at that moment; in every other case it ends as it
does without a limit, and with any higher one. Whether a program is rejected or has nothing to carry
out is found out before any control, and a flag that is up keeps it from beginning. -/
theorem step_limit_cuts_exactly (rails : Bool) (source : List Char) (tape : Tape) (input : Input)
    (n : Nat) :
    (∃ outcome,
      (∀ fuel, n < fuel →
        execute { fuel, rails, control := { maxSteps? := some n } } source tape input =
          some outcome) ∧
      (outcome.result = .error (.stepLimitExceeded n) ↔
        ∃ s, Underway rails source tape input n s) ∧
      (∀ s, Underway rails source tape input n s →
        s.steps = n ∧ outcome = ⟨.error (.stepLimitExceeded n), s.tape, s.input, s.output⟩) ∧
      (outcome.result ≠ .error (.stepLimitExceeded n) →
        Ends rails {} source tape input outcome ∧
          ∀ m, n ≤ m → Ends rails { maxSteps? := some m } source tape input outcome) ∧
      (∀ whole summary, Ends rails {} source tape input whole → whole.result = .ok summary →
        (outcome = whole ↔ summary.steps ≤ n)) ∧
      ∀ summary, outcome.result = .ok summary → summary.steps ≤ n) ∧
    ∀ control fuel, 0 < fuel →
      (∀ fault, sanitize source = .error fault →
        execute { fuel, rails, control } source tape input =
          some ⟨.error fault, tape, input, #[]⟩) ∧
      (sanitize source = .ok [] →
        execute { fuel, rails, control } source tape input = some ⟨.ok ⟨0, 0⟩, tape, input, #[]⟩) ∧
      (∀ c cs, sanitize source = .ok (c :: cs) → control.isCancelled 0 = true →
        execute { fuel, rails, control } source tape input =
          some ⟨.error .cancelled, tape, input, #[]⟩) := by
  constructor
  · by_cases busy : ∃ s, Underway rails source tape input n s
    · obtain ⟨s, underway⟩ := busy
      have limited := underway.execute_limited
      refine ⟨_, fun fuel enough => execute_mono enough limited, ?_, ?_, ?_, ?_, ?_⟩
      · exact ⟨fun _ => ⟨s, underway⟩, fun _ => rfl⟩
      · intro t other
        obtain rfl := underway.unique other
        exact ⟨underway.steps_eq, rfl⟩
      · intro uncut
        exact absurd rfl uncut
      · intro whole summary ends done
        have beyond := (underway_iff_lt_steps ends done).mp ⟨s, underway⟩
        constructor
        · rintro rfl
          cases done
        · intro within
          exact absurd beyond (Nat.not_lt.mpr within)
      · intro summary done
        cases done
    · obtain ⟨outcome, limited, uncut, ends, higher⟩ := execute_limited_of_idle busy
      have within (summary : Summary) (done : outcome.result = .ok summary) :
          summary.steps ≤ n := by
        refine Nat.le_of_not_lt fun beyond => ?_
        exact busy ((underway_iff_lt_steps ends done).mpr beyond)
      refine ⟨outcome, fun fuel enough => execute_mono enough limited, ?_, ?_, ?_, ?_, within⟩
      · exact ⟨fun cut => absurd cut uncut, fun underway => absurd underway busy⟩
      · intro s underway
        exact absurd ⟨s, underway⟩ busy
      · intro _
        exact ⟨ends, higher⟩
      · intro whole summary ends' done
        obtain rfl := ends.unique ends'
        exact ⟨fun _ => within summary done, fun _ => rfl⟩
  · intro control fuel enough
    refine ⟨fun fault rejected => execute_rejected rejected _, ?_, ?_⟩
    · intro empty
      exact execute_mono enough (execute_without_code empty control)
    · intro c cs accepted raised
      exact execute_mono enough (execute_cancelled accepted raised)

/-- An endless program, one that takes as many instructions as it may, and one that may take
none. -/
theorem step_limit_cuts_endless_program :
    execute { fuel := 4, control := { maxSteps? := some 3 } } ['+', '[', ']'] (.blank ⟨1, 256⟩)
        (.queue []) =
      some ⟨.error (.stepLimitExceeded 3), ⟨#[1], 0, 256⟩, .queue [], #[]⟩ ∧
    execute { fuel := 3, control := { maxSteps? := some 2 } } ['+', '+'] (.blank ⟨1, 256⟩)
        (.queue []) =
      some ⟨.ok ⟨0, 2⟩, ⟨#[2], 0, 256⟩, .queue [], #[]⟩ ∧
    execute { fuel := 1, control := { maxSteps? := some 0, cancelled := true } } ['+']
        (.blank ⟨1, 256⟩) (.queue []) =
      some ⟨.error .cancelled, ⟨#[0], 0, 256⟩, .queue [], #[]⟩ := by
  have accepted : sanitize ['+', '[', ']'] = .ok ['+', '[', ']'] := by cbv
  have underway : Underway false ['+', '[', ']'] (.blank ⟨1, 256⟩) (.queue []) 3
      ⟨2, [1], ⟨#[1], 0, 256⟩, .queue [], #[], 3⟩ := ⟨_, accepted, rfl, by decide⟩
  have whole : Ends false {} ['+', '+'] (.blank ⟨1, 256⟩) (.queue [])
      ⟨.ok ⟨0, 2⟩, ⟨#[2], 0, 256⟩, .queue [], #[]⟩ := ⟨3, by cbv⟩
  have single : sanitize ['+'] = .ok ['+'] := by cbv
  obtain ⟨⟨cut, ends, _, left, _⟩, _⟩ :=
    step_limit_cuts_exactly false ['+', '[', ']'] (.blank ⟨1, 256⟩) (.queue []) 3
  obtain ⟨⟨last, ends', _, _, _, within, _⟩, _⟩ :=
    step_limit_cuts_exactly false ['+', '+'] (.blank ⟨1, 256⟩) (.queue []) 2
  obtain ⟨_, precedence⟩ :=
    step_limit_cuts_exactly false ['+'] (.blank ⟨1, 256⟩) (.queue []) 0
  refine ⟨?_, ?_, ?_⟩
  · rw [ends 4 (by decide), (left _ underway).2]
  · rw [ends' 3 (by decide), (within _ _ whole rfl).mpr (by decide)]
  · exact (precedence _ 1 (by decide)).2.2 '+' [] single rfl

end TapeMachine
