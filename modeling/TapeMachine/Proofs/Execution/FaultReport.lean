import TapeMachine.Proofs.Execution.History
import TapeMachine.Proofs.Execution.OpenLoops

/-
What a reported fault can be relied on for. Its position is one of the stripped program, and what it
says holds of the character there and of the tape it leaves, whether it was found before the run or
by an instruction after any number of turns.
-/
namespace TapeMachine

open Source

def Input.after (input : Input) : Nat → Input
  | 0 => input
  | n + 1 => (input.after n).next.2

/-- What is left of the input began right behind the token. -/
def Input.LastTaken (input left : Input) (token : Token) : Prop :=
  ∃ n, (input.after n).next = (token, left)

/-- What a fault says about the character at an index of the stripped program and about the machine
that is left. No fault says that a loop is not ended: code in which one is not is rejected. -/
def Cause.Accurate (rails : Bool) (code : List Char) (index : Nat) (input : Input)
    (left : Outcome) : Cause → Prop
  | .unendedComment => startsWithMarker (code.drop index) = true
  | .unterminatedLoops =>
    (code[index]? = some '[' ∧ index ∈ (Pairing.scan code).pending ∨
      code[index]? = some ']' ∧ index ∈ (Pairing.scan code).stray) ∧
    code.count '[' ≠ code.count ']'
  | .unexpectedTerminator => code[index]? = some ']' ∧ firstStray? code = some index
  | .missingTerminator _ => False
  | .invalidCharacter c => code[index]? = some c ∧ Instruction.ofChar? c = none
  | .outOfBounds pointer .right =>
    code[index]? = some '>' ∧ rails = false ∧ pointer = left.tape.pointer ∧
      left.tape.pointer + 1 = left.tape.capacity
  | .outOfBounds pointer .left =>
    code[index]? = some '<' ∧ rails = false ∧ pointer = left.tape.pointer ∧ left.tape.pointer = 0
  | .overflow limit =>
    code[index]? = some '+' ∧ rails = false ∧ limit = left.tape.limit ∧
      left.tape.cell + 1 = left.tape.limit
  | .subZero => code[index]? = some '-' ∧ rails = false ∧ left.tape.cell = 0
  | .wrongLength received =>
    code[index]? = some ',' ∧ input.LastTaken left.input (.text received) ∧ received.length ≠ 1
  | .outOfRange c =>
    code[index]? = some ',' ∧ input.LastTaken left.input (.text [c]) ∧ 255 < c.toNat
  | .exceedsLimit c limit =>
    code[index]? = some ',' ∧ input.LastTaken left.input (.text [c]) ∧ limit = left.tape.limit ∧
      limit ≤ c.toNat ∧ c.toNat ≤ 255
  | .unprintable value =>
    code[index]? = some '.' ∧ value = left.tape.cell ∧ ¬ (32 ≤ value ∧ value ≤ 255)
  | .inputFailure description =>
    code[index]? = some ',' ∧ input.LastTaken left.input (.failure description)

theorem Cause.Accurate.lt_length {cause : Cause} {rails : Bool} {code : List Char} {index : Nat}
    {input : Input} {left : Outcome} (accurate : cause.Accurate rails code index input left) :
    index < code.length := by
  have inside {c : Char} (found : code[index]? = some c) : index < code.length :=
    (List.getElem?_eq_some_iff.mp found).1
  cases cause with
  | unendedComment =>
    refine Nat.lt_of_not_le fun beyond => ?_
    rw [Accurate, List.drop_eq_nil_of_le beyond] at accurate
    cases accurate
  | unterminatedLoops => exact accurate.1.elim (inside ·.1) (inside ·.1)
  | missingTerminator snippet => exact accurate.elim
  | outOfBounds pointer side => cases side <;> exact inside accurate.1
  | unexpectedTerminator | invalidCharacter | overflow | subZero | wrongLength | outOfRange
  | exceedsLimit | unprintable | inputFailure => exact inside accurate.1

theorem Source.accurate_of_defect {code : List Char} {position : Nat} {cause : Cause}
    (defect : defect? code = some (position, cause)) (rails : Bool) (input : Input)
    (left : Outcome) :
    0 < position ∧ cause.Accurate rails code (position - 1) input left := by
  rcases defect?_eq_some_iff.mp defect with
    ⟨index, found, rfl, rfl⟩ | ⟨_, index, found, rfl, rfl⟩
  · exact ⟨Nat.succ_pos index, startsWithMarker_of_marker found⟩
  · refine ⟨Nat.succ_pos index, ?_⟩
    obtain ⟨unpaired, differ⟩ := Pairing.unpaired_of_firstUnpaired found
    obtain ⟨opening, closing⟩ := Pairing.bracket_of_mem_scan code index
    refine ⟨unpaired.imp ?_ ?_, mt Pairing.scan_balanced_iff.mpr differ⟩
    · exact fun pending => ⟨opening pending, pending⟩
    · exact fun stray => ⟨closing stray, stray⟩

namespace State

variable {rails : Bool} {control : Control} {code : List Char} {s t : State} {c : Char}
  {halt : Halt} {input : Input}

theorem Carries.input_eq (carried : Carries rails s c t) :
    t.input = s.input ∨ t.input = s.input.next.2 := by
  cases carried with
  | read accepted => exact .inr rfl
  | act | print | enter | leave | again => exact .inl rfl

theorem after?_input {n : Nat} (reached : after? code.toArray rails control n s = some t) :
    ∃ requests, t.input = s.input.after requests := by
  refine after?_induction (fun t => ∃ requests, t.input = s.input.after requests) ⟨0, rfl⟩ ?_
    reached
  intro t u before next
  obtain ⟨requests, same⟩ := before
  obtain ⟨c, _, carried⟩ := carries_of_turn next
  rcases carried.input_eq with kept | taken
  · exact ⟨requests, kept.trans same⟩
  · exact ⟨requests + 1, by rw [taken, same, Input.after]⟩

theorem accurate_of_refusal {i : Instruction} {cause : Cause}
    (found : code[s.cursor]? = some i.toChar) (sound : s.tape.WellFormed)
    (refused : s.tape.refusal? i = some cause) {left : Outcome} (kept : left.tape = s.tape) :
    cause.Accurate false code s.cursor input left := by
  have pointer := sound.pointer_lt
  have cell := sound.cell_lt_limit
  rw [← kept] at pointer cell refused
  rcases Tape.refusal?_eq_some_iff.mp refused with
    ⟨rfl, last, rfl⟩ | ⟨rfl, first, rfl⟩ | ⟨rfl, full, rfl⟩ | ⟨rfl, zero, rfl⟩
  · exact ⟨found, rfl, rfl, by omega⟩
  · exact ⟨found, rfl, rfl, first⟩
  · exact ⟨found, rfl, rfl, by omega⟩
  · exact ⟨found, rfl, zero⟩

theorem accurate_of_token {token : Token} {cause : Cause} (found : code[s.cursor]? = some ',')
    {left : Outcome} (rejected : token.value left.tape.limit = .error cause)
    (taken : input.LastTaken left.input token) : cause.Accurate rails code s.cursor input left := by
  rcases Token.value_eq_error_iff.mp rejected with
    ⟨description, rfl, rfl⟩ | ⟨received, rfl, length, rfl⟩ | ⟨c, rfl, large, rfl⟩ |
      ⟨c, rfl, small, high, rfl⟩
  · exact ⟨found, taken⟩
  · exact ⟨found, taken, length⟩
  · exact ⟨found, taken, large⟩
  · exact ⟨found, taken, rfl, high, small⟩

theorem Refuses.accurate (refused : Refuses rails s c halt) (here : OpenLoops code s)
    (found : code[s.cursor]? = some c) (sound : s.tape.WellFormed) {requests : Nat}
    (request : s.input = input.after requests) {position : Nat} {cause : Cause}
    (fault : halt.fault? = some (.located position cause)) :
    cause.Accurate rails code s.cursor input halt.outcome := by
  cases refused with
  | act strict refused =>
    cases fault
    rw [strict]
    exact accurate_of_refusal found sound refused rfl
  | print unprintable =>
    cases fault
    refine ⟨found, rfl, ?_⟩
    simpa [isPrintable] using unprintable
  | read rejected =>
    cases fault
    exact accurate_of_token found rejected ⟨requests, by rw [← request]; rfl⟩
  | stray outside =>
    cases fault
    exact ⟨found, here.firstStray found outside⟩
  | unknown unknown =>
    cases fault
    exact ⟨found, unknown⟩

end State

/-- On any tape that calls leave behind, a fault at a position names a character of the stripped
program, and what it says is so. -/
theorem fault_reports_are_accurate {config : TapeConfig} {start tape : Tape} {calls : List Call}
    (configured : Tape.ofConfig config = .ok start) (reachable : History start calls tape)
    {mode : RunMode} {source : List Char} {input : Input} {outcome : Outcome} {position : Nat}
    {cause : Cause} (ran : execute mode source tape input = some outcome)
    (faulted : outcome.result = .error (.located position cause)) :
    1 ≤ position ∧ position ≤ (strip source).length ∧
      cause.Accurate mode.rails (strip source) (position - 1) input outcome := by
  suffices accurate : 0 < position ∧
      cause.Accurate mode.rails (strip source) (position - 1) input outcome by
    have := accurate.2.lt_length
    exact ⟨accurate.1, by omega, accurate.2⟩
  cases verdict : sanitize source with
  | error fault =>
    obtain ⟨_, _, defect, rfl⟩ := sanitize_eq_error_iff.mp verdict
    rw [execute_rejected verdict] at ran
    cases ran
    cases faulted
    exact accurate_of_defect defect _ _ _
  | ok code =>
    obtain ⟨n, s, c, halt, reached, found, refused, rfl, rfl⟩ :=
      refused_of_located_fault verdict ran faulted
    obtain ⟨rfl, _⟩ := sanitize_eq_ok_iff.mp verdict
    obtain ⟨valid, rfl⟩ := Tape.ofConfig_eq_ok_iff.mp configured
    have fits := reachable.fits valid (Tape.fits_blank valid)
    have sound := (State.after?_fits (s := .start tape input) fits reached).toWellFormed
    obtain ⟨requests, request⟩ := State.after?_input reached
    have here := (State.openLoops_start (strip source) tape input).after reached
    exact ⟨Nat.succ_pos s.cursor,
      refused.accurate here found sound request (Halt.result_eq_error_iff.mp faulted)⟩

/-- A token that is too long in the second pass of a loop, on a tape that a fault has left. -/
theorem fault_report_in_second_pass :
    ∃ tape outcome, History (.blank ⟨2, 100⟩) [.execute ['+', '>', '>'] false {} (.queue [])] tape ∧
      execute { fuel := 6 } ['+', '[', ',', '.', ']'] tape
        (.queue [.text ['A'], .text ['B', 'C']]) = some outcome ∧
      outcome.result = .error (.located 3 (.wrongLength ['B', 'C'])) ∧
      outcome.tape.pointer = 1 ∧
      ((Input.queue [.text ['A'], .text ['B', 'C']]).LastTaken outcome.input
        (.text ['B', 'C'])) := by
  have configured : Tape.ofConfig ⟨2, 100⟩ = .ok (.blank ⟨2, 100⟩) := rfl
  have before : execute { fuel := 3 } ['+', '>', '>'] (.blank ⟨2, 100⟩) (.queue []) =
      some ⟨.error (.located 3 (.outOfBounds 1 .right)), ⟨#[1, 0], 1, 100⟩, .queue [], #[]⟩ := by
    cbv
  have accepted : sanitize ['+', '[', ',', '.', ']'] = .ok ['+', '[', ',', '.', ']'] := by cbv
  have ran : execute { fuel := 6 } ['+', '[', ',', '.', ']'] ⟨#[1, 0], 1, 100⟩
        (.queue [.text ['A'], .text ['B', 'C']]) =
      some ⟨.error (.located 3 (.wrongLength ['B', 'C'])), ⟨#[1, 65], 1, 100⟩, .queue [],
        #['A']⟩ := by
    simp only [execute, accepted]
    rfl
  have reachable := History.nil.snoc (.execute before)
  obtain ⟨_, _, _, taken, _⟩ := fault_reports_are_accurate configured reachable ran rfl
  exact ⟨_, _, reachable, ran, rfl, rfl, taken⟩

end TapeMachine
