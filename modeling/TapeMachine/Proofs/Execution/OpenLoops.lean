import TapeMachine.Proofs.Execution.Turns
import TapeMachine.Proofs.Source.Pairing
import TapeMachine.Proofs.Source.Sanitize

/-
The loops open at run time are those a scan of the code before the cursor leaves pending, whatever
jumps led there. So a closing bracket jumps to its partner, no run gets past the first stray bracket
of its code, and code whose brackets are balanced by number never ends inside a loop.
-/
namespace TapeMachine

open Source

theorem Instruction.plain_of_actsOnTape {i : Instruction} (kind : i.actsOnTape = true) :
    i.toChar ≠ '[' ∧ i.toChar ≠ ']' := by
  cases i <;> first | exact ⟨by decide, by decide⟩ | cases kind

def Cause.isTerminator : Cause → Bool
  | .unexpectedTerminator | .missingTerminator _ => true
  | _ => false

theorem Tape.isTerminator_of_refusal {tape : Tape} {i : Instruction} {cause : Cause}
    (refused : tape.refusal? i = some cause) : cause.isTerminator = false := by
  rcases refusal?_eq_some_iff.mp refused with
    ⟨_, _, rfl⟩ | ⟨_, _, rfl⟩ | ⟨_, _, rfl⟩ | ⟨_, _, rfl⟩ <;> rfl

theorem Token.isTerminator_of_error {token : Token} {limit : Nat} {cause : Cause}
    (rejected : token.value limit = .error cause) : cause.isTerminator = false := by
  rcases value_eq_error_iff.mp rejected with
    ⟨_, _, rfl⟩ | ⟨_, _, _, rfl⟩ | ⟨_, _, _, rfl⟩ | ⟨_, _, _, _, rfl⟩ <;> rfl

namespace State

variable {code : List Char} {rails : Bool} {control : Control} {s t : State} {halt : Halt}

/-- The loops are the pending brackets of the code before the cursor, which has no stray one. -/
structure OpenLoops (code : List Char) (s : State) : Prop where
  cursor_le : s.cursor ≤ code.length
  loops_eq : s.loops = (Pairing.scan (code.take s.cursor)).pending
  no_stray : (Pairing.scan (code.take s.cursor)).stray = []

theorem openLoops_start (code : List Char) (tape : Tape) (input : Input) :
    OpenLoops code (.start tape input) where
  cursor_le := Nat.zero_le _
  loops_eq := by simp [start, Pairing.scan, Pairing.scanFrom]
  no_stray := by simp [start, Pairing.scan, Pairing.scanFrom]

theorem openLoops_of_step {c : Char} {p : Pairing} (found : code[s.cursor]? = some c)
    (scanned : (Pairing.scan (code.take s.cursor)).step s.cursor c = p)
    (cursor : t.cursor = s.cursor + 1) (loops : t.loops = p.pending) (none : p.stray = []) :
    OpenLoops code t := by
  have here := Pairing.scan_take_succ found
  rw [scanned, ← cursor] at here
  refine ⟨?_, ?_, ?_⟩
  · have := (List.getElem?_eq_some_iff.mp found).1
    omega
  · rw [here, loops]
  · rw [here, none]

theorem OpenLoops.plain {c : Char} (before : OpenLoops code s) (found : code[s.cursor]? = some c)
    (opening : c ≠ '[') (closing : c ≠ ']') (cursor : t.cursor = s.cursor + 1)
    (loops : t.loops = s.loops) : OpenLoops code t :=
  openLoops_of_step found (Pairing.step_plain opening closing _ _) cursor
    (loops.trans before.loops_eq) before.no_stray

theorem OpenLoops.partners {opening : Nat} {outer : List Nat} (before : OpenLoops code s)
    (found : code[s.cursor]? = some ']') (inside : s.loops = opening :: outer) :
    Partners code opening s.cursor ∧ (Pairing.scan (code.take opening)).pending = outer :=
  Pairing.partners_of_pending (before.loops_eq.symm.trans inside) found

theorem OpenLoops.carries {c : Char} (before : OpenLoops code s) (found : code[s.cursor]? = some c)
    (carried : Carries rails s c t) : OpenLoops code t := by
  cases carried with
  | act kind allowed =>
    obtain ⟨opening, closing⟩ := Instruction.plain_of_actsOnTape kind
    exact before.plain found opening closing rfl rfl
  | print | read => exact before.plain found (by decide) (by decide) rfl rfl
  | enter =>
    refine openLoops_of_step found (Pairing.step_opening _ _) rfl ?_ before.no_stray
    exact congrArg (s.cursor :: ·) before.loops_eq
  | leave inside zero =>
    have pending := before.loops_eq.symm.trans inside
    exact openLoops_of_step found (Pairing.step_closing pending _) rfl rfl before.no_stray
  | again inside nonzero =>
    -- Back after the opening bracket, the scan is where it was when the loop was entered.
    obtain ⟨partners, outer⟩ := before.partners found inside
    have earlier := Pairing.stray_take_of_le (Nat.le_of_lt partners.ordered) before.no_stray
    refine openLoops_of_step (s := { s with cursor := _ }) partners.opening
      (Pairing.step_opening _ _) rfl ?_ earlier
    simp [advance, inside, outer]

theorem OpenLoops.next (before : OpenLoops code s)
    (next : s.turn code.toArray rails control = .next t) : OpenLoops code t := by
  obtain ⟨c, found, carried⟩ := carries_of_turn next
  exact before.carries found carried

theorem OpenLoops.after {n : Nat} (before : OpenLoops code s)
    (reached : after? code.toArray rails control n s = some t) : OpenLoops code t :=
  after?_induction (OpenLoops code) before OpenLoops.next reached

theorem Refuses.terminator {c : Char} {position : Nat} {cause : Cause}
    (refused : Refuses rails s c halt) (fault : halt.fault? = some (.located position cause))
    (kind : cause.isTerminator = true) :
    cause = .unexpectedTerminator ∧ c = ']' ∧ s.loops = [] ∧ position = s.cursor + 1 := by
  cases refused with
  | stray outside =>
    cases fault
    exact ⟨rfl, rfl, outside, rfl⟩
  | act strict refused =>
    cases fault
    rw [Tape.isTerminator_of_refusal refused] at kind
    cases kind
  | read rejected =>
    cases fault
    rw [Token.isTerminator_of_error rejected] at kind
    cases kind
  | print | unknown =>
    cases fault
    cases kind

theorem abort?_unlocated {steps position : Nat} {cause : Cause} :
    control.abort? steps ≠ some (.located position cause) := by
  unfold Control.abort?
  grind

theorem OpenLoops.firstStray (before : OpenLoops code s) (closing : code[s.cursor]? = some ']')
    (outside : s.loops = []) : firstStray? code = some s.cursor := by
  refine firstStray?_eq_some_iff.mpr ⟨closing, Pairing.scan_eq_empty_iff.mp ?_⟩
  have parts : Pairing.scan (code.take s.cursor) =
      ⟨(Pairing.scan (code.take s.cursor)).pending, (Pairing.scan (code.take s.cursor)).stray⟩ :=
    rfl
  rw [parts, ← before.loops_eq, before.no_stray, outside]

theorem OpenLoops.jumps_to_partner (before : OpenLoops code s)
    (next : s.turn code.toArray rails control = .next t) (closing : code[s.cursor]? = some ']')
    (nonzero : s.tape.cell ≠ 0) :
    ∃ opening, Partners code opening s.cursor ∧ t.cursor = opening + 1 := by
  obtain ⟨c, found, carried⟩ := carries_of_turn next
  rw [closing] at found
  cases found
  obtain ⟨opening, outer, inside, back⟩ := carries_closing_iff.mp carried
  refine ⟨opening, (before.partners closing inside).1, ?_⟩
  rcases back with ⟨zero, _⟩ | ⟨_, rfl⟩
  · exact absurd zero nonzero
  · rfl

theorem OpenLoops.no_stray_after (before : OpenLoops code s)
    (next : s.turn code.toArray rails control = .next t) :
    (Pairing.scan (code.take (s.cursor + 1))).stray = [] := by
  obtain ⟨c, found, carried⟩ := carries_of_turn next
  rw [Pairing.scan_take_succ found, Pairing.stray_step]
  · exact before.no_stray
  · rintro ⟨rfl, outside⟩
    obtain ⟨opening, outer, inside, _⟩ := carries_closing_iff.mp carried
    rw [before.loops_eq, outside] at inside
    cases inside

theorem OpenLoops.lt_firstStray {stray : Nat} (before : OpenLoops code s)
    (first : firstStray? code = some stray) (next : s.turn code.toArray rails control = .next t) :
    s.cursor < stray :=
  le_firstStray (before.no_stray_after next) first

theorem OpenLoops.closed_at_end (before : OpenLoops code s)
    (lengths : (Pairing.scan code).pending.length = (Pairing.scan code).stray.length)
    (ended : code.length ≤ s.cursor) : s.loops = [] := by
  have loops := before.loops_eq
  have none := before.no_stray
  rw [List.take_of_length_le ended] at loops none
  rw [none, List.length_nil] at lengths
  rw [loops]
  exact List.length_eq_zero_iff.mp lengths

theorem OpenLoops.finish_eq {source : List Char} (accepted : sanitize source = .ok code)
    (before : OpenLoops code s) (ended : code[s.cursor]? = none) :
    s.finish code.toArray = ⟨s, none⟩ := by
  have lengths := (defect?_eq_none_iff.mp (sanitize_eq_ok_iff.mp accepted).2).2
  have outside := before.closed_at_end lengths (List.getElem?_eq_none_iff.mp ended)
  simp [finish, outside]

/-- A run of accepted code only ever faults on the instruction under the cursor. -/
theorem OpenLoops.refuses {source : List Char} (accepted : sanitize source = .ok code)
    (before : OpenLoops code s) (stops : Stops code.toArray rails control s halt)
    {position : Nat} {cause : Cause} (fault : halt.fault? = some (.located position cause)) :
    ∃ c, code[s.cursor]? = some c ∧ Refuses rails s c halt ∧ position = s.cursor + 1 := by
  cases stops with
  | ended finished =>
    rw [List.getElem?_toArray] at finished
    rw [before.finish_eq accepted finished] at fault
    cases fault
  | cut found aborted =>
    cases fault
    exact absurd aborted abort?_unlocated
  | refused found uncut refused =>
    rw [List.getElem?_toArray] at found
    obtain ⟨_, other, located⟩ := refused.located
    rw [fault] at located
    cases located
    exact ⟨_, found, refused, rfl⟩

end State

/-- A fault at a position of accepted code is one of the instruction there, on a turn of the run. -/
theorem refused_of_located_fault {source code : List Char} {mode : RunMode} {tape : Tape}
    {input : Input} {outcome : Outcome} (accepted : sanitize source = .ok code)
    (ran : execute mode source tape input = some outcome) {position : Nat} {cause : Cause}
    (faulted : outcome.result = .error (.located position cause)) :
    ∃ n s c halt,
      State.after? code.toArray mode.rails mode.control n (.start tape input) = some s ∧
      code[s.cursor]? = some c ∧ State.Refuses mode.rails s c halt ∧ outcome = halt.outcome ∧
      position = s.cursor + 1 := by
  rcases execute_eq_some_iff.mp ran with ⟨fault, rejected, _⟩ | ⟨code', halt, same, halted, rfl⟩
  · rw [accepted] at rejected
    cases rejected
  · rw [accepted] at same
    cases same
    obtain ⟨n, s, _, reached, stop⟩ := State.run_eq_some_iff.mp halted
    have here := (State.openLoops_start code tape input).after reached
    have fault := Halt.result_eq_error_iff.mp faulted
    obtain ⟨c, found, refused, located⟩ :=
      here.refuses accepted (State.turn_eq_stop_iff.mp stop) fault
    exact ⟨n, s, c, halt, reached, found, refused, rfl, located⟩

theorem openLoops_of_located_fault {source code : List Char} {mode : RunMode} {tape : Tape}
    {input : Input} {outcome : Outcome} (accepted : sanitize source = .ok code)
    (ran : execute mode source tape input = some outcome) {position : Nat} {cause : Cause}
    (faulted : outcome.result = .error (.located position cause)) :
    ∃ s, State.OpenLoops code s ∧ position = s.cursor + 1 ∧
      (cause.isTerminator = true →
        cause = .unexpectedTerminator ∧ firstStray? code = some s.cursor) := by
  obtain ⟨n, s, c, halt, reached, found, refused, rfl, located⟩ :=
    refused_of_located_fault accepted ran faulted
  have here := (State.openLoops_start code tape input).after reached
  refine ⟨s, here, located, fun kind => ?_⟩
  obtain ⟨rfl, rfl, outside, _⟩ := refused.terminator (Halt.result_eq_error_iff.mp faulted) kind
  exact ⟨rfl, here.firstStray found outside⟩

theorem Ends.ended_or_refused {source code : List Char} {rails : Bool} {tape : Tape} {input : Input}
    {outcome : Outcome} (accepted : sanitize source = .ok code)
    (ends : Ends rails {} source tape input outcome) :
    ∃ k s, State.after? code.toArray rails {} k (.start tape input) = some s ∧
      ((s.cursor = code.length ∧ s.loops = [] ∧ outcome = Halt.outcome ⟨s, none⟩) ∨
        ∃ c halt, code[s.cursor]? = some c ∧ State.Refuses rails s c halt ∧
          outcome = halt.outcome) := by
  obtain ⟨k, s, halt, reached, stop, rfl, ⟨ended, rfl⟩ | ⟨c, found, refused⟩⟩ :=
    ends.stop accepted
  · have here := (State.openLoops_start code tape input).after reached
    have beyond := List.getElem?_eq_none_iff.mp ended
    have lengths := (defect?_eq_none_iff.mp (sanitize_eq_ok_iff.mp accepted).2).2
    refine ⟨k, s, reached, .inl ⟨?_, here.closed_at_end lengths beyond, ?_⟩⟩
    · exact Nat.le_antisymm here.cursor_le beyond
    · rw [here.finish_eq accepted ended]
  · exact ⟨k, s, reached, .inr ⟨c, halt, found, refused, rfl⟩⟩

theorem Ends.located {source : List Char} {rails : Bool} {tape : Tape} {input : Input}
    {outcome : Outcome} {fault : Fault} (ends : Ends rails {} source tape input outcome)
    (faulted : outcome.result = .error fault) :
    ∃ position cause, fault = .located position cause := by
  cases verdict : sanitize source with
  | error other =>
    obtain ⟨position, cause, _, rfl⟩ := sanitize_eq_error_iff.mp verdict
    rw [(ends_of_rejected_iff verdict).mp ends] at faulted
    cases faulted
    exact ⟨position, cause, rfl⟩
  | ok code =>
    obtain ⟨k, s, _, ⟨_, _, rfl⟩ | ⟨c, halt, _, refused, rfl⟩⟩ := ends.ended_or_refused verdict
    · cases faulted
    · obtain ⟨_, cause, located⟩ := refused.located
      rw [Halt.result_eq_error_iff, located] at faulted
      cases faulted
      exact ⟨_, _, rfl⟩

/-- At every moment of a run of accepted code the open loops are the pending brackets before the
cursor, a closing bracket jumps to its partner, and the cursor is not beyond the first stray
bracket. No run ends inside a loop; one that reaches a closing bracket outside all loops has
reached the first stray one, and no fault lies beyond that. -/
theorem run_follows_static_pairing {source code : List Char} (accepted : sanitize source = .ok code)
    (rails : Bool) (control : Control) (tape : Tape) (input : Input) :
    (∀ n s, State.after? code.toArray rails control n (.start tape input) = some s →
      s.loops = (Pairing.scan (code.take s.cursor)).pending ∧
      (∀ t, s.turn code.toArray rails control = .next t →
        code[s.cursor]? = some ']' → s.tape.cell ≠ 0 →
          ∃ opening, Partners code opening s.cursor ∧ t.cursor = opening + 1) ∧
      ∀ stray, firstStray? code = some stray →
        s.cursor ≤ stray ∧
          ∀ t, s.turn code.toArray rails control = .next t → s.cursor < stray) ∧
    ∀ fuel outcome, execute { fuel, rails, control } source tape input = some outcome →
      (∀ position snippet,
        outcome.result ≠ .error (.located position (.missingTerminator snippet))) ∧
      (∀ position, outcome.result = .error (.located position .unexpectedTerminator) →
        ∃ stray, firstStray? code = some stray ∧ position = stray + 1) ∧
      ∀ stray position cause, firstStray? code = some stray →
        outcome.result = .error (.located position cause) → position ≤ stray + 1 := by
  constructor
  · intro n s reached
    have here := (State.openLoops_start code tape input).after reached
    refine ⟨here.loops_eq, ?_, ?_⟩
    · intro t next closing nonzero
      exact here.jumps_to_partner next closing nonzero
    · intro stray first
      exact ⟨le_firstStray here.no_stray first, fun t next => here.lt_firstStray first next⟩
  · intro fuel outcome ran
    refine ⟨?_, ?_, ?_⟩
    · intro position snippet faulted
      obtain ⟨s, _, _, terminator⟩ := openLoops_of_located_fault accepted ran faulted
      cases (terminator rfl).1
    · intro position faulted
      obtain ⟨s, _, rfl, terminator⟩ := openLoops_of_located_fault accepted ran faulted
      exact ⟨s.cursor, (terminator rfl).2, rfl⟩
    · intro stray position cause first faulted
      obtain ⟨s, here, rfl, _⟩ := openLoops_of_located_fault accepted ran faulted
      exact Nat.succ_le_succ (le_firstStray here.no_stray first)

/-- Brackets that are balanced by number only: no run faults beyond the second closing one. -/
theorem no_run_passes_stray_bracket :
    firstStray? ['+', '[', '-', ']', ']', '+', '['] = some 4 ∧
      ∀ rails control tape input fuel outcome,
        execute { fuel, rails, control } ['+', '[', '-', ']', ']', '+', '['] tape input =
            some outcome →
          ∀ position cause, outcome.result = .error (.located position cause) → position ≤ 5 := by
  have accepted : sanitize ['+', '[', '-', ']', ']', '+', '['] =
      .ok ['+', '[', '-', ']', ']', '+', '['] := by
    cbv
  have first : firstStray? ['+', '[', '-', ']', ']', '+', '['] = some 4 := rfl
  refine ⟨first, ?_⟩
  intro rails control tape input fuel outcome ran position cause faulted
  obtain ⟨_, stops⟩ := run_follows_static_pairing accepted rails control tape input
  obtain ⟨_, _, bound⟩ := stops fuel outcome ran
  exact bound 4 position cause first faulted

end TapeMachine
