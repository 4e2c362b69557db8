import TapeMachine.Proofs.Execution.Rules

/-
Runs as counted turns. `after?` is the state after exactly so many turns; a run stops with a halt
exactly if some turn does that a number of turns below its fuel leads to, so a run has at most one
halt whatever its fuel, and what every turn keeps holds at every moment.
-/
namespace TapeMachine.State

/-- The state after so many turns, if none of them stops. -/
def after? (code : Array Char) (rails : Bool) (control : Control) : Nat → State → Option State
  | 0, s => some s
  | n + 1, s =>
    match s.turn code rails control with
    | .next t => after? code rails control n t
    | .stop _ => none

def Halts (code : Array Char) (rails : Bool) (control : Control) (s : State) (halt : Halt) : Prop :=
  ∃ fuel, run code rails control fuel s = some halt

variable {code : Array Char} {rails : Bool} {control : Control} {s t u : State} {halt : Halt}

@[simp] theorem after?_zero : after? code rails control 0 s = some s := rfl

theorem after?_succ_iff {n : Nat} :
    after? code rails control (n + 1) s = some u ↔
      ∃ t, s.turn code rails control = .next t ∧ after? code rails control n t = some u := by
  cases answer : s.turn code rails control with
  | next t => simp [after?, answer]
  | stop halt => simp [after?, answer]

theorem after?_one_iff :
    after? code rails control 1 s = some t ↔ s.turn code rails control = .next t := by
  simp [after?_succ_iff]

theorem after?_add (m n : Nat) (s : State) :
    after? code rails control (m + n) s =
      (after? code rails control m s).bind (after? code rails control n) := by
  induction m generalizing s with
  | zero => simp
  | succ m ih =>
    rw [Nat.succ_add]
    cases answer : s.turn code rails control with
    | next t => simpa only [after?, answer] using ih t
    | stop halt => simp [after?, answer]

theorem after?_trans {m n : Nat} (first : after? code rails control m s = some t)
    (second : after? code rails control n t = some u) :
    after? code rails control (m + n) s = some u := by
  rw [after?_add, first]
  exact second

theorem after?_snoc_iff {n : Nat} :
    after? code rails control (n + 1) s = some u ↔
      ∃ t, after? code rails control n s = some t ∧ t.turn code rails control = .next u := by
  rw [after?_add]
  simp only [Option.bind_eq_some_iff, after?_one_iff]

theorem after?_induction (holds : State → Prop) (start : holds s)
    (step : ∀ {t u : State}, holds t → t.turn code rails control = .next u → holds u)
    {n : Nat} (reached : after? code rails control n s = some u) : holds u := by
  induction n generalizing u with
  | zero =>
    cases reached
    exact start
  | succ n ih =>
    obtain ⟨t, before, last⟩ := after?_snoc_iff.mp reached
    exact step (ih before) last

/-- If one machine answers each turn of another by a turn that keeps a relation between their
states, it answers any number of them. -/
theorem after?_simulates {code' : Array Char} {rails' : Bool} {control' : Control}
    (related : State → State → Prop)
    (step : ∀ {s t s' : State}, related s s' → s.turn code rails control = .next t →
      ∃ t', s'.turn code' rails' control' = .next t' ∧ related t t')
    {s' : State} (start : related s s') {n : Nat}
    (reached : after? code rails control n s = some t) :
    ∃ t', after? code' rails' control' n s' = some t' ∧ related t t' := by
  induction n generalizing s s' with
  | zero =>
    cases reached
    exact ⟨s', rfl, start⟩
  | succ n ih =>
    obtain ⟨u, next, rest⟩ := after?_succ_iff.mp reached
    obtain ⟨u', next', middle⟩ := step start next
    obtain ⟨t', rest', last⟩ := ih middle rest
    exact ⟨t', after?_succ_iff.mpr ⟨u', next', rest'⟩, last⟩

theorem after?_map {code' : Array Char} {rails' : Bool} {control' : Control} (f : State → State)
    (step : ∀ {s t : State}, s.turn code rails control = .next t →
      (f s).turn code' rails' control' = .next (f t))
    {n : Nat} (reached : after? code rails control n s = some t) :
    after? code' rails' control' n (f s) = some (f t) := by
  obtain ⟨t', reached', same⟩ := after?_simulates (fun s s' => s' = f s)
    (fun same next => ⟨_, same ▸ step next, rfl⟩) rfl reached
  rw [reached', same]

theorem after?_steps {n : Nat} (reached : after? code rails control n s = some t) :
    t.steps = s.steps + n := by
  induction n generalizing t with
  | zero =>
    cases reached
    rfl
  | succ n ih =>
    obtain ⟨u, before, last⟩ := after?_snoc_iff.mp reached
    obtain ⟨c, _, _, carried⟩ := turn_eq_next_iff.mp last
    have := ih before
    have := carried.steps_eq
    omega

theorem run_of_next (fuel : Nat) (next : s.turn code rails control = .next t) :
    run code rails control (fuel + 1) s = run code rails control fuel t := by
  simp only [run, next]

theorem run_of_stop (fuel : Nat) (stop : s.turn code rails control = .stop halt) :
    run code rails control (fuel + 1) s = some halt := by
  simp only [run, stop]

theorem exists_run_of_next {fuel : Nat} (ran : run code rails control fuel s = some halt)
    (next : s.turn code rails control = .next t) :
    ∃ less, less < fuel ∧ run code rails control less t = some halt := by
  cases fuel with
  | zero => cases ran
  | succ less =>
    rw [run_of_next less next] at ran
    exact ⟨less, Nat.lt_succ_self less, ran⟩

theorem run_of_after {n : Nat} (reached : after? code rails control n s = some t) (fuel : Nat) :
    run code rails control (n + fuel) s = run code rails control fuel t := by
  induction n generalizing s with
  | zero =>
    cases reached
    rw [Nat.zero_add]
  | succ n ih =>
    obtain ⟨u, next, rest⟩ := after?_succ_iff.mp reached
    rw [Nat.succ_add, run_of_next (n + fuel) next, ih rest]

/-- A run stops with the halt of the first turn that stops, if its fuel reaches that turn. -/
theorem run_eq_some_iff {fuel : Nat} :
    run code rails control fuel s = some halt ↔
      ∃ n t, n < fuel ∧ after? code rails control n s = some t ∧
        t.turn code rails control = .stop halt := by
  constructor
  · intro ran
    induction fuel generalizing s with
    | zero => cases ran
    | succ fuel ih =>
      cases answer : s.turn code rails control with
      | stop other =>
        rw [run_of_stop fuel answer] at ran
        cases ran
        exact ⟨0, s, Nat.succ_pos fuel, rfl, answer⟩
      | next t =>
        rw [run_of_next fuel answer] at ran
        obtain ⟨n, u, early, reached, stop⟩ := ih ran
        exact ⟨n + 1, u, by omega, after?_succ_iff.mpr ⟨t, answer, reached⟩, stop⟩
  · intro stopped
    obtain ⟨n, t, early, reached, stop⟩ := stopped
    obtain ⟨spare, rfl⟩ := Nat.exists_eq_add_of_lt early
    rw [Nat.add_assoc, run_of_after reached, run_of_stop spare stop]

theorem after?_eq_none_iff {n : Nat} :
    after? code rails control n s = none ↔ ∃ halt, run code rails control n s = some halt := by
  induction n generalizing s with
  | zero => simp [run]
  | succ n ih =>
    cases answer : s.turn code rails control with
    | next t => simp only [after?, answer, run_of_next n answer, ih]
    | stop halt => simp [after?, answer, run_of_stop n answer]

theorem exists_after?_iff_le {n : Nat} (reached : after? code rails control n s = some t)
    (stop : t.turn code rails control = .stop halt) (m : Nat) :
    (∃ u, after? code rails control m s = some u) ↔ m ≤ n := by
  constructor
  · intro goesOn
    obtain ⟨u, later⟩ := goesOn
    rcases Nat.lt_or_ge n m with beyond | early
    · obtain ⟨more, rfl⟩ := Nat.exists_eq_add_of_lt beyond
      rw [Nat.add_assoc, after?_add, reached] at later
      simp [after?, stop] at later
    · exact early
  · intro early
    obtain ⟨more, rfl⟩ := Nat.exists_eq_add_of_le early
    rw [after?_add] at reached
    obtain ⟨u, first, _⟩ := Option.bind_eq_some_iff.mp reached
    exact ⟨u, first⟩

theorem halts_of_stop (stop : s.turn code rails control = .stop halt) :
    Halts code rails control s halt := ⟨1, run_of_stop 0 stop⟩

theorem exists_halts_of_outlasts {code' : Array Char} {rails' : Bool} {control' : Control}
    {s' : State}
    (outlasts : ∀ {n t}, after? code rails control n s = some t →
      ∃ u, after? code' rails' control' n s' = some u)
    (halts : Halts code' rails' control' s' halt) :
    ∃ last, Halts code rails control s last := by
  obtain ⟨fuel, ran⟩ := halts
  have stopped := after?_eq_none_iff.mpr ⟨halt, ran⟩
  cases answer : after? code rails control fuel s with
  | some t =>
    obtain ⟨u, on⟩ := outlasts answer
    rw [on] at stopped
    cases stopped
  | none =>
    obtain ⟨last, ended⟩ := after?_eq_none_iff.mp answer
    exact ⟨last, fuel, ended⟩

theorem run_add {fuel : Nat} (ran : run code rails control fuel s = some halt) (more : Nat) :
    run code rails control (fuel + more) s = some halt := by
  obtain ⟨n, t, early, reached, stop⟩ := run_eq_some_iff.mp ran
  exact run_eq_some_iff.mpr ⟨n, t, by omega, reached, stop⟩

theorem Halts.unique {other : Halt} (one : Halts code rails control s halt)
    (two : Halts code rails control s other) : halt = other := by
  obtain ⟨m, ran⟩ := one
  obtain ⟨n, ranOther⟩ := two
  have longer := run_add ran n
  have longerOther := run_add ranOther m
  rw [Nat.add_comm n m, longer] at longerOther
  exact Option.some.inj longerOther

theorem halts_of_after {n : Nat} (reached : after? code rails control n s = some t) :
    Halts code rails control s halt ↔ Halts code rails control t halt := by
  constructor
  · intro halts
    obtain ⟨fuel, ran⟩ := halts
    have longer := run_add ran n
    rw [Nat.add_comm, run_of_after reached] at longer
    exact ⟨fuel, longer⟩
  · intro halts
    obtain ⟨fuel, ran⟩ := halts
    exact ⟨n + fuel, (run_of_after reached fuel).trans ran⟩

end TapeMachine.State

namespace TapeMachine

theorem Halt.result_eq_error_iff {halt : Halt} {fault : Fault} :
    halt.outcome.result = .error fault ↔ halt.fault? = some fault := by
  unfold Halt.outcome
  cases halt.fault? <;> simp

theorem Halt.result_eq_ok_iff {halt : Halt} {summary : Summary} :
    halt.outcome.result = .ok summary ↔
      halt.fault? = none ∧ summary = ⟨halt.state.output.size, halt.state.steps⟩ := by
  unfold Halt.outcome
  cases halt.fault? <;> simp [eq_comm]

theorem execute_eq_some_iff {mode : RunMode} {source : List Char} {tape : Tape} {input : Input}
    {outcome : Outcome} :
    execute mode source tape input = some outcome ↔
      (∃ fault, Source.sanitize source = .error fault ∧
        outcome = { result := .error fault, tape, input, output := #[] }) ∨
      ∃ code halt, Source.sanitize source = .ok code ∧
        State.run code.toArray mode.rails mode.control mode.fuel (.start tape input) = some halt ∧
        outcome = halt.outcome := by
  unfold execute
  cases Source.sanitize source with
  | error fault => simp [eq_comm]
  | ok code => simp [Option.map_eq_some_iff, eq_comm (b := outcome)]

/-- The program comes to this outcome, given fuel enough. -/
def Ends (rails : Bool) (control : Control) (source : List Char) (tape : Tape) (input : Input)
    (outcome : Outcome) : Prop :=
  ∃ fuel, execute { fuel, rails, control } source tape input = some outcome

section

variable {rails : Bool} {control : Control} {source code : List Char} {tape : Tape} {input : Input}
  {outcome : Outcome}

theorem execute_rejected {fault : Fault} (rejected : Source.sanitize source = .error fault)
    (mode : RunMode) :
    execute mode source tape input = some { result := .error fault, tape, input, output := #[] } :=
  execute_eq_some_iff.mpr (.inl ⟨fault, rejected, rfl⟩)

theorem execute_mono {fuel more : Nat} (enough : fuel ≤ more)
    (ran : execute { fuel, rails, control } source tape input = some outcome) :
    execute { fuel := more, rails, control } source tape input = some outcome := by
  obtain ⟨extra, rfl⟩ := Nat.exists_eq_add_of_le enough
  rcases execute_eq_some_iff.mp ran with rejected | ⟨code, halt, accepted, halted, same⟩
  · exact execute_eq_some_iff.mpr (.inl rejected)
  · have longer := State.run_add halted extra
    exact execute_eq_some_iff.mpr (.inr ⟨code, halt, accepted, longer, same⟩)

theorem ends_of_rejected_iff {fault : Fault} (rejected : Source.sanitize source = .error fault) :
    Ends rails control source tape input outcome ↔
      outcome = { result := .error fault, tape, input, output := #[] } := by
  simp [Ends, execute_rejected rejected, eq_comm]

theorem ends_iff_halts (accepted : Source.sanitize source = .ok code) :
    Ends rails control source tape input outcome ↔
      ∃ halt, State.Halts code.toArray rails control (.start tape input) halt ∧
        outcome = halt.outcome := by
  simp only [Ends, execute, accepted, Option.map_eq_some_iff, State.Halts]
  constructor
  · intro ends
    obtain ⟨fuel, halt, ran, same⟩ := ends
    exact ⟨halt, ⟨fuel, ran⟩, same.symm⟩
  · intro halts
    obtain ⟨halt, ⟨fuel, ran⟩, same⟩ := halts
    exact ⟨fuel, halt, ran, same.symm⟩

theorem Ends.unique {other : Outcome} (one : Ends rails control source tape input outcome)
    (two : Ends rails control source tape input other) : outcome = other := by
  cases verdict : Source.sanitize source with
  | error fault =>
    rw [ends_of_rejected_iff verdict] at one two
    exact one.trans two.symm
  | ok code =>
    obtain ⟨halt, halts, rfl⟩ := (ends_iff_halts verdict).mp one
    obtain ⟨last, halts', rfl⟩ := (ends_iff_halts verdict).mp two
    rw [halts.unique halts']

theorem Ends.outputCount_eq {summary : Summary}
    (ends : Ends rails control source tape input outcome) (done : outcome.result = .ok summary) :
    summary.outputCount = outcome.output.size := by
  cases verdict : Source.sanitize source with
  | error fault =>
    rw [(ends_of_rejected_iff verdict).mp ends] at done
    cases done
  | ok code =>
    obtain ⟨halt, _, rfl⟩ := (ends_iff_halts verdict).mp ends
    obtain ⟨_, rfl⟩ := Halt.result_eq_ok_iff.mp done
    rfl

/-- Without control, a program that is accepted stops on some turn: at its end or at a fault. -/
theorem Ends.stop (accepted : Source.sanitize source = .ok code)
    (ends : Ends rails {} source tape input outcome) :
    ∃ k s halt, State.after? code.toArray rails {} k (.start tape input) = some s ∧
      s.turn code.toArray rails {} = .stop halt ∧ outcome = halt.outcome ∧
      ((code[s.cursor]? = none ∧ halt = s.finish code.toArray) ∨
        ∃ c, code[s.cursor]? = some c ∧ State.Refuses rails s c halt) := by
  obtain ⟨halt, ⟨fuel, ran⟩, same⟩ := (ends_iff_halts accepted).mp ends
  obtain ⟨k, s, _, reached, stop⟩ := State.run_eq_some_iff.mp ran
  have cases := (State.turn_eq_stop_iff.mp stop).uncontrolled
  simp only [List.getElem?_toArray] at cases
  exact ⟨k, s, halt, reached, stop, same, cases⟩

end

end TapeMachine
