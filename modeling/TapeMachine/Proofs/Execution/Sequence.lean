import TapeMachine.Proofs.Execution.OpenLoops
import TapeMachine.Proofs.Source.Stripped

/-
One program behind another in one text. The first part runs as it does alone, and a run gets past it
only outside all loops; from there on the second part runs as it does alone on the tape and input it
finds, with its positions, its output and its steps behind those of the first.
-/
namespace TapeMachine

open Source

def Fault.shift (offset : Nat) : Fault → Fault
  | .located position cause => .located (offset + position) cause
  | .stepLimitExceeded limit => .stepLimitExceeded limit
  | .cancelled => .cancelled

/-- A state of a program that was started in the state `first` of a run of longer code. -/
def State.behind (s first : State) : State :=
  { cursor := first.cursor + s.cursor
    loops := s.loops.map (first.cursor + ·)
    tape := s.tape
    input := s.input
    output := first.output ++ s.output
    steps := first.steps + s.steps }

def Halt.behind (halt : Halt) (first : State) : Halt :=
  ⟨halt.state.behind first, halt.fault?.map (·.shift first.cursor)⟩

namespace State

variable {a b : List Char} {rails : Bool} {s t first : State} {c : Char}
  {halt : Halt} {n : Nat}

theorem behind_start {tape : Tape} {input : Input} (closed : first.loops = [])
    (sameTape : first.tape = tape) (sameInput : first.input = input) :
    (State.start tape input).behind first = first := by
  subst sameTape sameInput
  obtain ⟨cursor, loops, tape, input, output, steps⟩ := first
  cases closed
  simp [behind, start]

theorem loops_behind {opening : Nat} {outer : List Nat} (inside : s.loops = opening :: outer)
    (first : State) :
    (s.behind first).loops =
      (first.cursor + opening) :: outer.map (first.cursor + ·) := by
  simp [behind, inside]

theorem behind_push (s first : State) (c : Char) :
    { s with output := s.output.push c }.advance.behind first =
      { s.behind first with output := (s.behind first).output.push c }.advance := by
  simp only [behind, advance, Array.append_push, Nat.add_assoc]

theorem Carries.behind (carried : Carries rails s c t) (first : State) :
    Carries rails (s.behind first) c (t.behind first) := by
  cases carried with
  | act kind allowed => exact .act (s := s.behind first) kind allowed
  | print printable =>
    rw [behind_push]
    exact .print printable
  | read accepted => exact .read (s := s.behind first) accepted
  | enter => exact .enter (s := s.behind first)
  | leave inside zero => exact .leave (loops_behind inside first) zero
  | again inside nonzero => exact .again (loops_behind inside first) nonzero

theorem Refuses.behind (refused : Refuses rails s c halt) (first : State) :
    Refuses rails (s.behind first) c (halt.behind first) := by
  cases refused with
  | act strict refused => exact .act (s := s.behind first) strict refused
  | print unprintable => exact .print (s := s.behind first) unprintable
  | read rejected => exact .read (s := s.behind first) rejected
  | stray outside =>
    have outside' : (s.behind first).loops = [] := by simp [State.behind, outside]
    exact .stray outside'
  | unknown unknown => exact .unknown (s := s.behind first) unknown

theorem getElem?_behind (seam : first.cursor = a.length) :
    (a ++ b)[(s.behind first).cursor]? = b[s.cursor]? := by
  rw [behind, seam, List.getElem?_append_right (Nat.le_add_right _ _), Nat.add_sub_cancel_left]

theorem turn_behind (seam : first.cursor = a.length)
    (next : s.turn b.toArray rails {} = .next t) :
    (s.behind first).turn (a ++ b).toArray rails {} = .next (t.behind first) := by
  obtain ⟨c, found, carried⟩ := carries_of_turn next
  rw [← getElem?_behind seam] at found
  exact (carried.behind first).turn_eq found

theorem after?_behind (seam : first.cursor = a.length)
    (reached : after? b.toArray rails {} n s = some t) :
    after? (a ++ b).toArray rails {} n (s.behind first) = some (t.behind first) :=
  after?_map (·.behind first) (turn_behind seam) reached

theorem turn_behind_of_refuses (seam : first.cursor = a.length) (found : b[s.cursor]? = some c)
    (refused : Refuses rails s c halt) :
    (s.behind first).turn (a ++ b).toArray rails {} = .stop (halt.behind first) := by
  rw [← getElem?_behind seam] at found
  exact (refused.behind first).turn_eq found

theorem turn_behind_at_end (seam : first.cursor = a.length) (ended : s.cursor = b.length)
    (closed : s.loops = []) :
    (s.behind first).turn (a ++ b).toArray rails {} = .stop (Halt.behind ⟨s, none⟩ first) := by
  have finished : (a ++ b).toArray[(s.behind first).cursor]? = none := by
    rw [List.getElem?_toArray, getElem?_behind seam, ended]
    exact List.getElem?_eq_none (Nat.le_refl b.length)
  rw [turn_at_end finished]
  simp [finish, State.behind, Halt.behind, closed]

theorem getElem?_of_first (found : a[s.cursor]? = some c) (b : List Char) :
    (a ++ b)[s.cursor]? = some c := by
  rw [List.getElem?_append_left (List.getElem?_eq_some_iff.mp found).1, found]

theorem turn_append (b : List Char) (next : s.turn a.toArray rails {} = .next t) :
    s.turn (a ++ b).toArray rails {} = .next t := by
  obtain ⟨c, found, carried⟩ := carries_of_turn next
  exact carried.turn_eq (getElem?_of_first found b)

theorem after?_append (reached : after? a.toArray rails {} n s = some t) (b : List Char) :
    after? (a ++ b).toArray rails {} n s = some t :=
  after?_map id (turn_append b) reached

end State

variable {a b : List Char} {rails : Bool} {tape : Tape} {input : Input} {one two whole : Outcome}

/-- Code that sanitizing leaves as it is, whatever the order of its brackets. -/
structure Source.Plain (code : List Char) : Prop where
  isPlain : ∀ c ∈ code, isPlain c = true
  balanced : code.count '[' = code.count ']'

theorem Source.Plain.accepted {code : List Char} (plain : Plain code) : sanitize code = .ok code :=
  sanitize_plain plain.isPlain plain.balanced

theorem Source.Plain.append (first : Plain a) (second : Plain b) : Plain (a ++ b) where
  isPlain c member := (List.mem_append.mp member).elim (first.isPlain c) (second.isPlain c)
  balanced := by rw [List.count_append, List.count_append, first.balanced, second.balanced]

theorem Ends.left (first : Plain a) (second : Plain b)
    (ends : Ends rails {} (a ++ b) tape input whole) : ∃ one, Ends rails {} a tape input one := by
  obtain ⟨halt, halts, _⟩ := (ends_iff_halts (first.append second).accepted).mp ends
  obtain ⟨last, alone⟩ :=
    State.exists_halts_of_outlasts (fun reached => ⟨_, State.after?_append reached b⟩) halts
  exact ⟨last.outcome, (ends_iff_halts first.accepted).mpr ⟨last, alone, rfl⟩⟩

theorem Ends.append_of_fault (first : Plain a) (second : Plain b) {fault : Fault}
    (ends : Ends rails {} a tape input one) (faulted : one.result = .error fault) :
    Ends rails {} (a ++ b) tape input one := by
  obtain ⟨k, s, reached, ⟨_, _, rfl⟩ | ⟨c, halt, found, refused, rfl⟩⟩ :=
    ends.ended_or_refused first.accepted
  · cases faulted
  · have stop := refused.turn_eq (State.getElem?_of_first found b)
    have halts := (State.halts_of_after (State.after?_append reached b)).mpr
      (State.halts_of_stop stop)
    exact (ends_iff_halts (first.append second).accepted).mpr ⟨halt, halts, rfl⟩

theorem Ends.seam (first : Plain a) {summary : Summary} (ends : Ends rails {} a tape input one)
    (done : one.result = .ok summary) :
    ∃ k s, State.after? a.toArray rails {} k (.start tape input) = some s ∧
      s.cursor = a.length ∧ s.output = one.output ∧ s.steps = summary.steps ∧
      (State.start one.tape one.input).behind s = s := by
  obtain ⟨k, s, reached, ⟨ended, closed, rfl⟩ | ⟨c, halt, _, refused, rfl⟩⟩ :=
    ends.ended_or_refused first.accepted
  · obtain ⟨_, rfl⟩ := Halt.result_eq_ok_iff.mp done
    -- No loop of the first part is open here, so nothing of it is left on the stack.
    exact ⟨k, s, reached, ended, rfl, rfl, State.behind_start closed rfl rfl⟩
  · obtain ⟨_, cause, fault⟩ := refused.located
    rw [Halt.result_eq_ok_iff, fault] at done
    cases done.1

/-- What a program comes to if it is the second part of a text whose first part ended well. -/
def Outcome.behind (two : Outcome) (output : Array Char) (steps offset : Nat) : Outcome :=
  { result :=
      match two.result with
      | .ok summary => .ok ⟨output.size + summary.outputCount, steps + summary.steps⟩
      | .error fault => .error (fault.shift offset)
    tape := two.tape
    input := two.input
    output := output ++ two.output }

theorem Halt.outcome_behind (halt : Halt) (first : State) :
    (halt.behind first).outcome = halt.outcome.behind first.output first.steps first.cursor := by
  obtain ⟨state, _ | fault⟩ := halt <;> simp [outcome, behind, Outcome.behind, State.behind]

theorem Ends.append_of_ok (first : Plain a) (second : Plain b) {summary : Summary}
    (ends : Ends rails {} a tape input one) (done : one.result = .ok summary)
    (later : Ends rails {} b one.tape one.input two) :
    Ends rails {} (a ++ b) tape input (two.behind one.output summary.steps a.length) := by
  obtain ⟨k, s, reached, seam, output, steps, start⟩ := ends.seam first done
  obtain ⟨m, t, reached', stops⟩ := later.ended_or_refused second.accepted
  -- From the seam on, the turns of the second part are turns of the whole.
  have on := State.after?_behind seam reached'
  rw [start] at on
  have whole := State.after?_trans (State.after?_append reached b) on
  obtain ⟨halt, rfl, stop⟩ : ∃ halt, two = Halt.outcome halt ∧
      (t.behind s).turn (a ++ b).toArray rails {} = .stop (halt.behind s) := by
    rcases stops with ⟨ended, closed, rfl⟩ | ⟨c, halt, found, refused, rfl⟩
    · exact ⟨_, rfl, State.turn_behind_at_end seam ended closed⟩
    · exact ⟨halt, rfl, State.turn_behind_of_refuses seam found refused⟩
  have halts := (State.halts_of_after whole).mpr (State.halts_of_stop stop)
  refine (ends_iff_halts (first.append second).accepted).mpr ⟨_, halts, ?_⟩
  rw [Halt.outcome_behind, seam, output, steps]

theorem Ends.right (first : Plain a) (second : Plain b) {summary : Summary}
    (ends : Ends rails {} a tape input one) (done : one.result = .ok summary)
    (whole : Ends rails {} (a ++ b) tape input whole) :
    ∃ two, Ends rails {} b one.tape one.input two := by
  obtain ⟨k, s, reached, seam, _, _, start⟩ := ends.seam first done
  obtain ⟨halt, halts, _⟩ := (ends_iff_halts (first.append second).accepted).mp whole
  have later := (State.halts_of_after (State.after?_append reached b)).mp halts
  rw [← start] at later
  obtain ⟨last, alone⟩ :=
    State.exists_halts_of_outlasts (fun on => ⟨_, State.after?_behind seam on⟩) later
  exact ⟨last.outcome, (ends_iff_halts second.accepted).mpr ⟨last, alone, rfl⟩⟩

/-- A fault of the first part is the fault of the whole. If the first part ends well, the second one
runs on from there: the summaries add up, or its fault is that of the whole, further on by the
length of the first part. The whole comes to an end in no other way. -/
theorem programs_run_in_sequence (first : Plain a) (second : Plain b) (rails : Bool) (tape : Tape)
    (input : Input) :
    (∀ one fault, Ends rails {} a tape input one → one.result = .error fault →
      Ends rails {} (a ++ b) tape input one) ∧
    (∀ one two s₁ s₂, Ends rails {} a tape input one → one.result = .ok s₁ →
      Ends rails {} b one.tape one.input two → two.result = .ok s₂ →
        Ends rails {} (a ++ b) tape input
          { result := .ok ⟨s₁.outputCount + s₂.outputCount, s₁.steps + s₂.steps⟩
            tape := two.tape
            input := two.input
            output := one.output ++ two.output }) ∧
    (∀ one two s₁ position cause, Ends rails {} a tape input one → one.result = .ok s₁ →
      Ends rails {} b one.tape one.input two → two.result = .error (.located position cause) →
        Ends rails {} (a ++ b) tape input
          { result := .error (.located (position + a.length) cause)
            tape := two.tape
            input := two.input
            output := one.output ++ two.output }) ∧
    ∀ whole, Ends rails {} (a ++ b) tape input whole →
      ∃ one, Ends rails {} a tape input one ∧
        ((∃ fault, one.result = .error fault) ∨
          ∃ s₁ two, one.result = .ok s₁ ∧ Ends rails {} b one.tape one.input two ∧
            ((∃ s₂, two.result = .ok s₂) ∨
              ∃ position cause, two.result = .error (.located position cause))) := by
  refine ⟨?_, ?_, ?_, ?_⟩
  · intro one fault ends faulted
    exact ends.append_of_fault first second faulted
  · intro one two s₁ s₂ ends done later done'
    have whole := ends.append_of_ok first second done later
    have count := ends.outputCount_eq done
    simpa only [Outcome.behind, done', count] using whole
  · intro one two s₁ position cause ends done later faulted
    have whole := ends.append_of_ok first second done later
    simpa only [Outcome.behind, faulted, Fault.shift, Nat.add_comm] using whole
  · intro whole ends
    obtain ⟨one, alone⟩ := ends.left first second
    refine ⟨one, alone, ?_⟩
    cases done : one.result with
    | error fault => exact .inl ⟨fault, rfl⟩
    | ok s₁ =>
      obtain ⟨two, later⟩ := alone.right first second done ends
      refine .inr ⟨s₁, two, rfl, later, ?_⟩
      cases done' : two.result with
      | ok s₂ => exact .inl ⟨s₂, rfl⟩
      | error fault =>
        obtain ⟨position, cause, rfl⟩ := later.located done'
        exact .inr ⟨position, cause, rfl⟩

/-- A fault in a loop of the second part, two parts that end well, and a first part whose brackets
are balanced by number only. -/
theorem programs_run_in_sequence_to_fault :
    Ends false {} (['+', '[', '-', ']'] ++ ['+', '[', '<', ']']) (.blank ⟨1, 256⟩) (.queue [])
      ⟨.error (.located 7 (.outOfBounds 0 .left)), ⟨#[1], 0, 256⟩, .queue [], #[]⟩ ∧
    Ends false {} (['+', '[', '-', ']'] ++ ['+', '[', '-', ']']) (.blank ⟨1, 256⟩) (.queue [])
      ⟨.ok ⟨0, 8⟩, ⟨#[0], 0, 256⟩, .queue [], #[]⟩ ∧
    Ends false {} (['+', ']', '['] ++ ['+', '[', '-', ']']) (.blank ⟨1, 256⟩) (.queue [])
      ⟨.error (.located 2 .unexpectedTerminator), ⟨#[1], 0, 256⟩, .queue [], #[]⟩ := by
  have clear : Plain ['+', '[', '-', ']'] := ⟨List.all_eq_true.mp rfl, by decide⟩
  have leftward : Plain ['+', '[', '<', ']'] := ⟨List.all_eq_true.mp rfl, by decide⟩
  have misordered : Plain ['+', ']', '['] := ⟨List.all_eq_true.mp rfl, by decide⟩
  have cleared : Ends false {} ['+', '[', '-', ']'] (.blank ⟨1, 256⟩) (.queue [])
      ⟨.ok ⟨0, 4⟩, ⟨#[0], 0, 256⟩, .queue [], #[]⟩ := ⟨5, by cbv⟩
  have faulted : Ends false {} ['+', '[', '<', ']'] ⟨#[0], 0, 256⟩ (.queue [])
      ⟨.error (.located 3 (.outOfBounds 0 .left)), ⟨#[1], 0, 256⟩, .queue [], #[]⟩ :=
    ⟨3, by cbv⟩
  have stray : Ends false {} ['+', ']', '['] (.blank ⟨1, 256⟩) (.queue [])
      ⟨.error (.located 2 .unexpectedTerminator), ⟨#[1], 0, 256⟩, .queue [], #[]⟩ := ⟨2, by cbv⟩
  obtain ⟨_, _, fault, _⟩ :=
    programs_run_in_sequence clear leftward false (.blank ⟨1, 256⟩) (.queue [])
  obtain ⟨_, sums, _, _⟩ :=
    programs_run_in_sequence clear clear false (.blank ⟨1, 256⟩) (.queue [])
  obtain ⟨keeps, _, _, _⟩ :=
    programs_run_in_sequence misordered clear false (.blank ⟨1, 256⟩) (.queue [])
  exact ⟨fault _ _ _ _ _ cleared rfl faulted rfl, sums _ _ _ _ cleared rfl cleared rfl,
    keeps _ _ stray rfl⟩

end TapeMachine
