import TapeMachine.Proofs.Execution.FaultReport
import TapeMachine.Proofs.Report.Window
import TapeMachine.Proofs.Source.Stripped

/-
The caret of a reported fault. Whatever stops a program, its position is one of the stripped
program; the report shows the code around it on one line, and the caret on the next line is right
below the character that the fault is about.
-/
namespace TapeMachine

open Source

/-- What a fault says about the character of the code at an index. -/
def Cause.IsAbout (code : List Char) (index : Nat) : Cause → Prop
  | .unendedComment => startsWithMarker (code.drop index) = true
  | .unterminatedLoops => code[index]? = some '[' ∨ code[index]? = some ']'
  | .unexpectedTerminator => code[index]? = some ']'
  | .missingTerminator _ => False
  | .invalidCharacter c => code[index]? = some c ∧ Instruction.ofChar? c = none
  | .outOfBounds _ .right => code[index]? = some '>'
  | .outOfBounds _ .left => code[index]? = some '<'
  | .overflow _ => code[index]? = some '+'
  | .subZero => code[index]? = some '-'
  | .wrongLength _ | .outOfRange _ | .exceedsLimit _ _ | .inputFailure _ =>
    code[index]? = some ','
  | .unprintable _ => code[index]? = some '.'

theorem Cause.Accurate.isAbout {cause : Cause} {rails : Bool} {code : List Char} {index : Nat}
    {input : Input} {left : Outcome} (accurate : cause.Accurate rails code index input left) :
    cause.IsAbout code index := by
  cases cause with
  | unendedComment => exact accurate
  | unterminatedLoops => exact accurate.1.imp (·.1) (·.1)
  | missingTerminator snippet => exact accurate.elim
  | invalidCharacter c => exact accurate
  | outOfBounds pointer side => cases side <;> exact accurate.1
  | unexpectedTerminator | overflow | subZero | wrongLength | outOfRange | exceedsLimit
  | unprintable | inputFailure => exact accurate.1

theorem State.Refuses.isAbout {rails : Bool} {code : List Char} {s : State} {c : Char}
    {halt : Halt} (refused : Refuses rails s c halt) (found : code[s.cursor]? = some c)
    {position : Nat} {cause : Cause} (fault : halt.fault? = some (.located position cause)) :
    cause.IsAbout code s.cursor := by
  cases refused with
  | act strict refused =>
    cases fault
    rcases Tape.refusal?_eq_some_iff.mp refused with
      ⟨rfl, _, rfl⟩ | ⟨rfl, _, rfl⟩ | ⟨rfl, _, rfl⟩ | ⟨rfl, _, rfl⟩ <;> exact found
  | print unprintable =>
    cases fault
    exact found
  | read rejected =>
    cases fault
    rcases Token.value_eq_error_iff.mp rejected with
      ⟨_, _, rfl⟩ | ⟨_, _, _, rfl⟩ | ⟨_, _, _, rfl⟩ | ⟨_, _, _, _, rfl⟩ <;> exact found
  | stray outside =>
    cases fault
    exact found
  | unknown unknown =>
    cases fault
    exact ⟨found, unknown⟩

theorem located_fault_isAbout {mode : RunMode} {source : List Char} {tape : Tape} {input : Input}
    {outcome : Outcome} (ran : execute mode source tape input = some outcome) {position : Nat}
    {cause : Cause} (faulted : outcome.result = .error (.located position cause)) :
    1 ≤ position ∧ position ≤ (strip source).length ∧
      cause.IsAbout (strip source) (position - 1) := by
  cases verdict : sanitize source with
  | error fault =>
    obtain ⟨_, _, defect, rfl⟩ := sanitize_eq_error_iff.mp verdict
    obtain ⟨counted, accurate⟩ := accurate_of_defect defect mode.rails input outcome
    have inside := accurate.lt_length
    rw [execute_rejected verdict] at ran
    cases ran
    cases faulted
    exact ⟨counted, by omega, accurate.isAbout⟩
  | ok code =>
    obtain ⟨n, s, c, halt, reached, found, refused, rfl, rfl⟩ :=
      refused_of_located_fault verdict ran faulted
    obtain ⟨rfl, _⟩ := sanitize_eq_ok_iff.mp verdict
    have inside := (List.getElem?_eq_some_iff.mp found).1
    exact ⟨Nat.succ_pos s.cursor, inside,
      refused.isAbout found (Halt.result_eq_error_iff.mp faulted)⟩

/-- The report of a fault shows up to 32 characters of the stripped program on either side of the
one that the fault is about, without a line break among them, and has the caret in the column of
that character. -/
theorem caret_stands_under_culprit {mode : RunMode} {source : List Char} {tape : Tape}
    {input : Input} {outcome : Outcome} {position : Nat} {cause : Cause}
    (ran : execute mode source tape input = some outcome)
    (faulted : outcome.result = .error (.located position cause)) (palette : Palette)
    (program? : Option String) :
    ∃ x : Excerpt, x.text = strip source ∧ x.index + 1 = position ∧ x.Reaches 32 ∧
      (strip source)[position - 1]? = some x.character ∧
      cause.IsAbout (strip source) (position - 1) ∧
      Window.checked? (strip source) position =
        some { excerpt := x.shown, caret := x.before.length } ∧
      '\n' ∉ x.shown ∧
      Report.fault palette program? source (.located position cause) =
        Report.headline palette program? (Fault.located position cause).headline ++
          "  " ++ String.ofList x.shown ++ "\n" ++
          "  " ++ String.ofList (List.replicate x.before.length ' ' ++ ['^']) ++ "\n" ++
          Report.advice palette (.located position cause) := by
  obtain ⟨counted, inside, about⟩ := located_fault_isAbout ran faulted
  have inside' : position - 1 < (strip source).length := by omega
  obtain ⟨x, text, index, reaches⟩ := exists_excerpt inside' Window.reach
  have window : Window.around (strip source) (position - 1) =
      { excerpt := x.shown, caret := x.before.length } := by
    rw [← text, ← index, Window.around_eq x reaches]
  refine ⟨x, text, by omega, reaches, ?_, about, ?_, ?_, ?_⟩
  · rw [← text, ← index, x.getElem?_text]
  · rw [Window.checked?_eq counted, window]
  · intro feed
    have member : '\n' ∈ strip source := by
      rw [← text, Excerpt.text]
      simp [feed]
    cases isSpace_of_mem_strip member
  · simp only [Report.fault, Report.context, Fault.position?, window, Window.text,
      Window.caretLine, String.append_assoc]
    rfl

/-- A fault with more code before it than a report shows. -/
theorem caret_stands_under_far_culprit :
    ∃ outcome, execute { fuel := 35, rails := true } (List.replicate 34 '<' ++ [' ', 'x', '+'])
        ⟨#[0], 0, 256⟩ (.queue []) = some outcome ∧
      outcome.result = .error (.located 35 (.invalidCharacter 'x')) ∧
      ∃ x : Excerpt, x.text = List.replicate 34 '<' ++ ['x', '+'] ∧ x.index = 34 ∧
        x.character = 'x' ∧ x.before.length ≤ 32 ∧ x.cutBefore ≠ [] := by
  have stripped : strip (List.replicate 34 '<' ++ [' ', 'x', '+']) =
      List.replicate 34 '<' ++ ['x', '+'] := by
    cbv
  have accepted : sanitize (List.replicate 34 '<' ++ [' ', 'x', '+']) =
      .ok (List.replicate 34 '<' ++ ['x', '+']) := by
    cbv
  have ran : execute { fuel := 35, rails := true } (List.replicate 34 '<' ++ [' ', 'x', '+'])
      ⟨#[0], 0, 256⟩ (.queue []) =
        some ⟨.error (.located 35 (.invalidCharacter 'x')), ⟨#[0], 0, 256⟩, .queue [], #[]⟩ := by
    simp only [execute, accepted]
    rfl
  obtain ⟨x, text, index, reaches, culprit, _⟩ :=
    caret_stands_under_culprit ran rfl .default none
  rw [stripped] at text culprit
  have here : x.index = 34 := by omega
  refine ⟨_, ran, rfl, x, text, here, ?_, reaches.before_le, ?_⟩
  · exact (Option.some.inj culprit).symm
  · intro none
    have near := reaches.before_le
    rw [Excerpt.index, none, List.length_nil] at here
    omega

end TapeMachine
