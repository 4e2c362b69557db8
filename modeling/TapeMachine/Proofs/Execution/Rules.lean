import TapeMachine.Execution

/-
What a turn can do, as rules: `Carries` has one rule for each way to carry out an instruction and
`Refuses` one for each way to fault on it. A turn goes on exactly by `Carries` and stops exactly at
the end of the code, when it is cut short, or by `Refuses`, so later proofs split on the rules and
leave the machine's own definitions closed.
-/
namespace TapeMachine

def Instruction.actsOnTape : Instruction → Bool
  | .right | .left | .increment | .decrement => true
  | .print | .read | .loopStart | .loopEnd => false

theorem Tape.actsOnTape_of_refusal {tape : Tape} {i : Instruction} {cause : Cause}
    (refused : tape.refusal? i = some cause) : i.actsOnTape = true := by
  cases i <;> simp_all [Tape.refusal?, Instruction.actsOnTape]

namespace State

inductive Carries (rails : Bool) (s : State) : Char → State → Prop
  | act {i : Instruction} (kind : i.actsOnTape = true)
      (allowed : rails = true ∨ s.tape.refusal? i = none) :
      Carries rails s i.toChar { s with tape := s.tape.apply i }.advance
  | print (printable : isPrintable s.tape.cell = true) :
      Carries rails s '.' { s with output := s.output.push (Char.ofNat s.tape.cell) }.advance
  | read {value : Nat} (accepted : s.input.next.1.value s.tape.limit = .ok value) :
      Carries rails s ','
        { s with input := s.input.next.2, tape := s.tape.write value }.advance
  | enter : Carries rails s '[' s.enterLoop
  | leave {opening : Nat} {outer : List Nat} (inside : s.loops = opening :: outer)
      (zero : s.tape.cell = 0) : Carries rails s ']' { s with loops := outer }.advance
  | again {opening : Nat} {outer : List Nat} (inside : s.loops = opening :: outer)
      (nonzero : s.tape.cell ≠ 0) : Carries rails s ']' { s with cursor := opening }.advance

/-- Only a refused token has an effect: it is used up. -/
inductive Refuses (rails : Bool) (s : State) : Char → Halt → Prop
  | act {i : Instruction} {cause : Cause} (strict : rails = false)
      (refused : s.tape.refusal? i = some cause) :
      Refuses rails s i.toChar ⟨s, some (.located (s.cursor + 1) cause)⟩
  | print (unprintable : isPrintable s.tape.cell = false) :
      Refuses rails s '.' ⟨s, some (.located (s.cursor + 1) (.unprintable s.tape.cell))⟩
  | read {cause : Cause} (rejected : s.input.next.1.value s.tape.limit = .error cause) :
      Refuses rails s ','
        ⟨{ s with input := s.input.next.2 }, some (.located (s.cursor + 1) cause)⟩
  | stray (outside : s.loops = []) :
      Refuses rails s ']' ⟨s, some (.located (s.cursor + 1) .unexpectedTerminator)⟩
  | unknown {c : Char} (unknown : Instruction.ofChar? c = none) :
      Refuses rails s c ⟨s, some (.located (s.cursor + 1) (.invalidCharacter c))⟩

variable {rails : Bool} {s t : State} {c : Char} {halt : Halt}

theorem perform_act {i : Instruction} (kind : i.actsOnTape = true) :
    s.perform rails i.toChar = s.act rails i := by
  cases i <;> first | rfl | cases kind

theorem perform_unknown (unknown : Instruction.ofChar? c = none) :
    s.perform rails c = s.fault (.invalidCharacter c) := by
  simp only [perform, unknown]

theorem perform_print : s.perform rails '.' = s.print := rfl

theorem perform_read : s.perform rails ',' = s.read := rfl

theorem perform_loopEnd : s.perform rails ']' = s.endLoop := rfl

theorem Carries.perform_eq (carried : Carries rails s c t) : s.perform rails c = .next t := by
  cases carried with
  | act kind allowed =>
    rw [perform_act kind]
    rcases allowed with rfl | allowed
    · rfl
    · simp [State.act, allowed]
  | print printable => simp [perform_print, State.print, printable]
  | read accepted => simp [perform_read, State.read, accepted]
  | enter => rfl
  | leave inside zero => simp [perform_loopEnd, endLoop, inside, zero]
  | again inside nonzero => simp [perform_loopEnd, endLoop, inside, nonzero]

theorem Refuses.perform_eq (refused : Refuses rails s c halt) :
    s.perform rails c = .stop halt := by
  cases refused with
  | act strict refused =>
    rw [perform_act (Tape.actsOnTape_of_refusal refused)]
    simp [State.act, strict, refused, fault]
  | print unprintable => simp [perform_print, State.print, unprintable, fault]
  | read rejected => simp [perform_read, State.read, rejected, fault]
  | stray outside => simp [perform_loopEnd, endLoop, outside, fault]
  | unknown unknown => exact perform_unknown unknown

theorem act_cases (rails : Bool) (s : State) {i : Instruction} (kind : i.actsOnTape = true) :
    (∃ t, Carries rails s i.toChar t) ∨ ∃ halt, Refuses rails s i.toChar halt := by
  cases rails with
  | true => exact .inl ⟨_, .act kind (.inl rfl)⟩
  | false =>
    cases answer : s.tape.refusal? i with
    | none => exact .inl ⟨_, .act kind (.inr answer)⟩
    | some cause => exact .inr ⟨_, .act rfl answer⟩

theorem carries_or_refuses (rails : Bool) (s : State) (c : Char) :
    (∃ t, Carries rails s c t) ∨ ∃ halt, Refuses rails s c halt := by
  cases known : Instruction.ofChar? c with
  | none => exact .inr ⟨_, .unknown known⟩
  | some i =>
    obtain rfl := Instruction.ofChar?_eq_some_iff.mp known
    cases i with
    | right | left | increment | decrement => exact act_cases rails s rfl
    | print =>
      cases answer : isPrintable s.tape.cell with
      | true => exact .inl ⟨_, .print answer⟩
      | false => exact .inr ⟨_, .print answer⟩
    | read =>
      cases answer : s.input.next.1.value s.tape.limit with
      | ok value => exact .inl ⟨_, .read answer⟩
      | error cause => exact .inr ⟨_, .read answer⟩
    | loopStart => exact .inl ⟨_, .enter⟩
    | loopEnd =>
      cases answer : s.loops with
      | nil => exact .inr ⟨_, .stray answer⟩
      | cons opening outer =>
        by_cases zero : s.tape.cell = 0
        · exact .inl ⟨_, .leave answer zero⟩
        · exact .inl ⟨_, .again answer zero⟩

theorem perform_eq_next_iff : s.perform rails c = .next t ↔ Carries rails s c t := by
  constructor
  · intro performed
    rcases carries_or_refuses rails s c with ⟨u, carried⟩ | ⟨halt, refused⟩
    · have same := carried.perform_eq.symm.trans performed
      cases same
      exact carried
    · have same := refused.perform_eq.symm.trans performed
      cases same
  · exact Carries.perform_eq

theorem perform_eq_stop_iff : s.perform rails c = .stop halt ↔ Refuses rails s c halt := by
  constructor
  · intro performed
    rcases carries_or_refuses rails s c with ⟨u, carried⟩ | ⟨halt, refused⟩
    · have same := carried.perform_eq.symm.trans performed
      cases same
    · have same := refused.perform_eq.symm.trans performed
      cases same
      exact refused
  · exact Refuses.perform_eq

theorem carries_closing_iff :
    Carries rails s ']' t ↔
      ∃ opening outer, s.loops = opening :: outer ∧
        ((s.tape.cell = 0 ∧ t = { s with loops := outer }.advance) ∨
          (s.tape.cell ≠ 0 ∧ t = { s with cursor := opening }.advance)) := by
  rw [← perform_eq_next_iff, perform_loopEnd]
  constructor
  · intro ended
    unfold endLoop at ended
    split at ended
    · cases ended
    · rename_i opening outer inside
      refine ⟨opening, outer, inside, ?_⟩
      split at ended
      · rename_i zero
        cases ended
        exact .inl ⟨zero, rfl⟩
      · rename_i nonzero
        cases ended
        exact .inr ⟨nonzero, rfl⟩
  · intro ended
    obtain ⟨opening, outer, inside, ⟨zero, rfl⟩ | ⟨nonzero, rfl⟩⟩ := ended
    · simp only [endLoop, inside, zero, ↓reduceIte]
    · simp only [endLoop, inside, nonzero, ↓reduceIte]

variable {code : Array Char} {control : Control}

inductive Stops (code : Array Char) (rails : Bool) (control : Control) (s : State) : Halt → Prop
  | ended (finished : code[s.cursor]? = none) : Stops code rails control s (s.finish code)
  | cut {c : Char} {fault : Fault} (found : code[s.cursor]? = some c)
      (aborted : control.abort? s.steps = some fault) : Stops code rails control s ⟨s, some fault⟩
  | refused {c : Char} {halt : Halt} (found : code[s.cursor]? = some c)
      (uncut : control.abort? s.steps = none) (refused : Refuses rails s c halt) :
      Stops code rails control s halt

theorem turn_eq_next_iff :
    s.turn code rails control = .next t ↔
      ∃ c, code[s.cursor]? = some c ∧ control.abort? s.steps = none ∧ Carries rails s c t := by
  unfold turn
  cases found : code[s.cursor]? with
  | none => simp
  | some c =>
    cases aborted : control.abort? s.steps with
    | some fault => simp
    | none => simp [perform_eq_next_iff]

theorem turn_eq_stop_iff :
    s.turn code rails control = .stop halt ↔ Stops code rails control s halt := by
  constructor
  · intro stopped
    unfold turn at stopped
    cases found : code[s.cursor]? with
    | none =>
      simp only [found, Turn.stop.injEq] at stopped
      subst stopped
      exact .ended found
    | some c =>
      cases aborted : control.abort? s.steps with
      | some fault =>
        simp only [found, aborted, Turn.stop.injEq] at stopped
        subst stopped
        exact .cut found aborted
      | none =>
        simp only [found, aborted] at stopped
        exact .refused found aborted (perform_eq_stop_iff.mp stopped)
  · intro stops
    cases stops with
    | ended finished => simp only [turn, finished]
    | cut found aborted => simp only [turn, found, aborted]
    | refused found uncut refused =>
      simp only [turn, found, uncut]
      exact refused.perform_eq

theorem turn_at_end (ended : code[s.cursor]? = none) :
    s.turn code rails control = .stop (s.finish code) :=
  turn_eq_stop_iff.mpr (.ended ended)

section

variable {code : List Char}

theorem Carries.turn_eq (carried : Carries rails s c t) (found : code[s.cursor]? = some c) :
    s.turn code.toArray rails {} = .next t := by
  rw [← List.getElem?_toArray] at found
  exact turn_eq_next_iff.mpr ⟨c, found, rfl, carried⟩

theorem Refuses.turn_eq (refused : Refuses rails s c halt) (found : code[s.cursor]? = some c) :
    s.turn code.toArray rails {} = .stop halt := by
  rw [← List.getElem?_toArray] at found
  exact turn_eq_stop_iff.mpr (.refused found rfl refused)

theorem carries_of_turn (next : s.turn code.toArray rails control = .next t) :
    ∃ c, code[s.cursor]? = some c ∧ Carries rails s c t := by
  obtain ⟨c, found, _, carried⟩ := turn_eq_next_iff.mp next
  rw [List.getElem?_toArray] at found
  exact ⟨c, found, carried⟩

end

theorem Stops.uncontrolled (stops : Stops code rails {} s halt) :
    (code[s.cursor]? = none ∧ halt = s.finish code) ∨
      ∃ c, code[s.cursor]? = some c ∧ Refuses rails s c halt := by
  cases stops with
  | ended finished => exact .inl ⟨finished, rfl⟩
  | cut found aborted => cases aborted
  | refused found uncut refused => exact .inr ⟨_, found, refused⟩

theorem finish_state (code : Array Char) (s : State) : (s.finish code).state = s := by
  unfold finish
  split <;> rfl

theorem Refuses.located (refused : Refuses rails s c halt) :
    halt.state.cursor = s.cursor ∧
      ∃ cause, halt.fault? = some (.located (s.cursor + 1) cause) := by
  cases refused <;> exact ⟨rfl, _, rfl⟩

theorem turn_eq_stop_well_iff :
    s.turn code rails control = .stop ⟨t, none⟩ ↔
      code[s.cursor]? = none ∧ s.loops = [] ∧ t = s := by
  rw [turn_eq_stop_iff]
  constructor
  · intro stops
    generalize reached : (⟨t, none⟩ : Halt) = halt at stops
    cases stops with
    | ended finished =>
      unfold finish at reached
      split at reached
      · rename_i outside
        cases reached
        exact ⟨finished, outside, rfl⟩
      · cases reached
    | cut found aborted => cases reached
    | refused found uncut refused =>
      obtain ⟨_, cause, fault⟩ := refused.located
      rw [← reached] at fault
      cases fault
  · rintro ⟨finished, outside, rfl⟩
    have ended : Stops code rails control t (t.finish code) := .ended finished
    simpa only [finish, outside] using ended

theorem Carries.steps_eq (carried : Carries rails s c t) : t.steps = s.steps + 1 := by
  cases carried <;> rfl

end State

end TapeMachine
