import TapeMachine.Proofs.Execution.History
import TapeMachine.Proofs.Text.ByteLine

/-
Which line of a stream a request gets. Every turn that asks for a token takes the next line, whether
the token is stored or refused, and no other turn touches the stream; so over any calls in sequence
the requests take the lines one after the other, and what no request took is still there.
-/
namespace TapeMachine

open Input (Lines TokenOf OnePerLine lineToken)

structure Request where
  state : State
  answer : Turn

def Turn.input : Turn → Input
  | .next s => s.input
  | .stop halt => halt.state.input

inductive Unusable (limit : Nat) : Token → Cause → Prop
  | failure {description : String} :
      Unusable limit (.failure description) (.inputFailure description)
  | length {received : List Char} (several : received.length ≠ 1) :
      Unusable limit (.text received) (.wrongLength received)
  | range {c : Char} (large : 255 < c.toNat) : Unusable limit (.text [c]) (.outOfRange c)
  | limit {c : Char} (small : c.toNat ≤ 255) (high : limit ≤ c.toNat) :
      Unusable limit (.text [c]) (.exceedsLimit c limit)

/-- A token is stored as the code point of its only character, or the run stops on it. -/
inductive Answered (limit : Nat) (s : State) (token : Token) : Turn → Prop
  | stored {c : Char} {t : State} (single : token = .text [c]) (small : c.toNat ≤ 255)
      (fits : c.toNat < limit) (cell : t.tape.cell = c.toNat) : Answered limit s token (.next t)
  | refused {cause : Cause} {halt : Halt} (unusable : Unusable limit token cause)
      (fault : halt.fault? = some (.located (s.cursor + 1) cause))
      (kept : halt.state.tape = s.tape) : Answered limit s token (.stop halt)

theorem Token.value_eq_error_iff_unusable {limit : Nat} {token : Token} {cause : Cause} :
    token.value limit = .error cause ↔ Unusable limit token cause := by
  rw [Token.value_eq_error_iff]
  constructor
  · rintro (⟨_, rfl, rfl⟩ | ⟨_, rfl, several, rfl⟩ | ⟨_, rfl, large, rfl⟩ |
      ⟨_, rfl, small, high, rfl⟩)
    · exact .failure
    · exact .length several
    · exact .range large
    · exact .limit small high
  · intro unusable
    cases unusable with
    | failure => exact .inl ⟨_, rfl, rfl⟩
    | length several => exact .inr (.inl ⟨_, rfl, several, rfl⟩)
    | range large => exact .inr (.inr (.inl ⟨_, rfl, large, rfl⟩))
    | limit small high => exact .inr (.inr (.inr ⟨_, rfl, small, high, rfl⟩))

namespace State

variable {code : Array Char} {rails : Bool} {control : Control} {s : State} {config : TapeConfig}

def Asks (code : Array Char) (control : Control) (s : State) : Prop :=
  code[s.cursor]? = some ',' ∧ control.abort? s.steps = none

instance (code : Array Char) (control : Control) (s : State) : Decidable (s.Asks code control) :=
  inferInstanceAs (Decidable (_ ∧ _))

def request (code : Array Char) (rails : Bool) (control : Control) (s : State) : List Request :=
  if s.Asks code control then [⟨s, s.turn code rails control⟩] else []

/-- The requests of a run, in the order in which they are made. -/
def requests (code : Array Char) (rails : Bool) (control : Control) : Nat → State → List Request
  | 0, _ => []
  | fuel + 1, s =>
    s.request code rails control ++
      match s.turn code rails control with
      | .next t => requests code rails control fuel t
      | .stop _ => []

theorem Asks.turn_eq (asks : s.Asks code control) (rails : Bool) :
    (s.turn code rails control).input = s.input.next.2 ∧ ∀ config, s.tape.Fits config →
      Answered config.limit s s.input.next.1 (s.turn code rails control) := by
  obtain ⟨found, uncut⟩ := asks
  cases value : s.input.next.1.value s.tape.limit with
  | ok value =>
    rw [turn_eq_next_iff.mpr ⟨',', found, uncut, .read value⟩]
    refine ⟨rfl, fun config fits => ?_⟩
    obtain ⟨c, single, small, below, rfl⟩ := Token.value_eq_ok_iff.mp value
    rw [fits.limit_eq] at below
    exact .stored single small below (s.tape.cell_write _ fits.pointer_lt)
  | error cause =>
    rw [turn_eq_stop_iff.mpr (.refused found uncut (.read value))]
    refine ⟨rfl, fun config fits => ?_⟩
    rw [fits.limit_eq] at value
    exact .refused (Token.value_eq_error_iff_unusable.mp value) rfl rfl

theorem input_of_quiet (quiet : ¬ s.Asks code control) :
    (s.turn code rails control).input = s.input := by
  cases turn : s.turn code rails control with
  | next t =>
    obtain ⟨c, found, uncut, carried⟩ := turn_eq_next_iff.mp turn
    cases carried with
    | read accepted => exact absurd ⟨found, uncut⟩ quiet
    | act | print | enter | leave | again => rfl
  | stop halt =>
    cases turn_eq_stop_iff.mp turn with
    | ended finished => rw [Turn.input, finish_state]
    | cut found aborted => rfl
    | refused found uncut refused =>
      cases refused with
      | read rejected => exact absurd ⟨found, uncut⟩ quiet
      | act | print | stray | unknown => rfl

end State

/-- Requests that each take the line that is next, and the lines behind the last of them. -/
inductive Served (limit : Nat) :
    List (List UInt8) → List Request → List (List UInt8) → Prop
  | nil {ls : List (List UInt8)} : Served limit ls [] ls
  | cons {ls rest : List (List UInt8)} {request : Request} {later : List Request}
      (before : request.state.input = .stream ls.flatten)
      (answered : Answered limit request.state (lineToken (ls.headD [])) request.answer)
      (after : request.answer.input = .stream ls.tail.flatten)
      (served : Served limit ls.tail later rest) : Served limit ls (request :: later) rest

namespace Served

variable {limit : Nat} {ls middle rest : List (List UInt8)} {early more : List Request}

theorem append (first : Served limit ls early middle) (second : Served limit middle more rest) :
    Served limit ls (early ++ more) rest := by
  induction first with
  | nil => exact second
  | cons before answered after served ih => exact .cons before answered after (ih second)

theorem rest_eq (served : Served limit ls early rest) : rest = ls.drop early.length := by
  induction served with
  | nil => rfl
  | cons before answered after served ih => rw [ih, List.length_cons, List.drop_tail]

theorem lines (served : Served limit ls early rest) (lines : Lines ls) : Lines rest := by
  induction served with
  | nil => exact lines
  | cons before answered after served ih => exact ih lines.tail

theorem answered_at {k : Nat} {request : Request} (served : Served limit ls early rest)
    (found : early[k]? = some request) :
    request.state.input = .stream (ls.drop k).flatten ∧
      Answered limit request.state (lineToken (ls.getD k [])) request.answer ∧
      request.answer.input = .stream (ls.drop (k + 1)).flatten := by
  induction served generalizing k with
  | nil => cases found
  | @cons ls _ _ _ before answered after served ih =>
    cases k with
    | zero =>
      cases found
      cases ls <;> exact ⟨before, answered, after⟩
    | succ k =>
      have later := ih found
      rw [List.drop_tail, List.drop_tail] at later
      cases ls with
      | nil => simpa using later
      | cons line ls => exact later

end Served

namespace State

variable {config : TapeConfig}

theorem served_turn (code : Array Char) (rails : Bool) (control : Control) {s : State}
    {ls : List (List UInt8)} (fits : s.tape.Fits config) (lines : Lines ls)
    (stream : s.input = .stream ls.flatten) :
    ∃ rest, Served config.limit ls (s.request code rails control) rest ∧
      (s.turn code rails control).input = .stream rest.flatten := by
  unfold request
  split
  · rename_i asks
    obtain ⟨taken, answered⟩ := asks.turn_eq rails
    have answered := answered config fits
    rw [stream, lines.next_eq] at taken answered
    exact ⟨ls.tail, .cons stream answered taken .nil, taken⟩
  · rename_i quiet
    exact ⟨ls, .nil, (input_of_quiet quiet).trans stream⟩

/-- A run takes one line for each of its requests, however far it gets. -/
theorem served_run (code : Array Char) (rails : Bool) (control : Control) (fuel : Nat) {s : State}
    {ls : List (List UInt8)} (fits : s.tape.Fits config) (lines : Lines ls)
    (stream : s.input = .stream ls.flatten) :
    ∃ rest, Served config.limit ls (requests code rails control fuel s) rest ∧
      ∀ halt, run code rails control fuel s = some halt →
        halt.state.input = .stream rest.flatten := by
  induction fuel generalizing s ls with
  | zero => exact ⟨ls, .nil, fun halt ran => by cases ran⟩
  | succ fuel ih =>
    obtain ⟨middle, first, taken⟩ := served_turn code rails control fits lines stream
    rw [requests]
    cases turn : s.turn code rails control with
    | next t =>
      rw [turn] at taken
      have fits := after?_fits fits (after?_one_iff.mpr turn)
      obtain ⟨rest, later, ended⟩ := ih fits (first.lines lines) taken
      refine ⟨rest, first.append later, fun halt ran => ?_⟩
      rw [run_of_next fuel turn] at ran
      exact ended halt ran
    | stop halt =>
      rw [turn] at taken
      refine ⟨middle, first.append .nil, fun halt' ran => ?_⟩
      rw [run_of_stop fuel turn] at ran
      cases ran
      exact taken

end State

structure Job where
  mode : RunMode
  source : List Char

namespace Job

def requests (job : Job) (tape : Tape) (input : Input) : List Request :=
  match Source.sanitize job.source with
  | .error _ => []
  | .ok code =>
    State.requests code.toArray job.mode.rails job.mode.control job.mode.fuel (.start tape input)

/-- The requests of all calls. One that does not come back is the last. -/
def requestsOf : List Job → Tape → Input → List Request
  | [], _, _ => []
  | job :: jobs, tape, input =>
    job.requests tape input ++
      match execute job.mode job.source tape input with
      | some outcome => requestsOf jobs outcome.tape outcome.input
      | none => []

def inputAfter? : List Job → Tape → Input → Option Input
  | [], _, input => some input
  | job :: jobs, tape, input =>
    (execute job.mode job.source tape input).bind fun outcome =>
      inputAfter? jobs outcome.tape outcome.input

variable {config : TapeConfig} {tape : Tape} {ls : List (List UInt8)}

theorem served (job : Job) (fits : tape.Fits config) (lines : Lines ls) :
    ∃ rest, Served config.limit ls (job.requests tape (.stream ls.flatten)) rest ∧
      ∀ outcome, execute job.mode job.source tape (.stream ls.flatten) = some outcome →
        outcome.input = .stream rest.flatten := by
  unfold requests
  cases verdict : Source.sanitize job.source with
  | error fault =>
    refine ⟨ls, .nil, fun outcome ran => ?_⟩
    rw [execute_rejected verdict] at ran
    cases ran
    rfl
  | ok code =>
    obtain ⟨rest, taken, ended⟩ := State.served_run code.toArray job.mode.rails job.mode.control
      job.mode.fuel (s := .start tape (.stream ls.flatten)) fits lines rfl
    refine ⟨rest, taken, fun outcome ran => ?_⟩
    rcases execute_eq_some_iff.mp ran with ⟨fault, rejected, _⟩ | ⟨code', halt, same, halted, rfl⟩
    · rw [verdict] at rejected
      cases rejected
    · rw [verdict] at same
      cases same
      exact ended halt halted

theorem served_all (jobs : List Job) (fits : tape.Fits config) (lines : Lines ls) :
    ∃ rest, Served config.limit ls (requestsOf jobs tape (.stream ls.flatten)) rest ∧
      ∀ input, inputAfter? jobs tape (.stream ls.flatten) = some input →
        input = .stream rest.flatten := by
  induction jobs generalizing tape ls with
  | nil => exact ⟨ls, .nil, fun input same => by cases same; rfl⟩
  | cons job jobs ih =>
    obtain ⟨middle, first, left⟩ := job.served fits lines
    rw [requestsOf, inputAfter?]
    cases ran : execute job.mode job.source tape (.stream ls.flatten) with
    | none => exact ⟨middle, first.append .nil, fun input none => by cases none⟩
    | some outcome =>
      obtain ⟨rest, later, ended⟩ := ih (execute_fits fits ran) (first.lines lines)
      rw [← left outcome ran] at later ended
      exact ⟨rest, first.append later, ended⟩

end Job

section

variable {limit : Nat} {s : State} {c : Char} {answer : Turn}

theorem Answered.stored_of_char (answered : Answered limit s (.text [c]) answer)
    (small : c.toNat ≤ 255) (fits : c.toNat < limit) :
    ∃ t, answer = .next t ∧ t.tape.cell = c.toNat := by
  cases answered with
  | stored single small fits cell =>
    cases single
    exact ⟨_, rfl, cell⟩
  | refused unusable fault kept =>
    cases unusable with
    | length several => exact absurd rfl several
    | range large => exact absurd large (Nat.not_lt_of_le small)
    | limit small high => exact absurd fits (Nat.not_lt_of_le high)

theorem Answered.refused_of_empty (answered : Answered limit s (.text []) answer) :
    ∃ halt, answer = .stop halt ∧
      halt.fault? = some (.located (s.cursor + 1) (.wrongLength [])) := by
  cases answered with
  | stored single small fits cell => cases single
  | refused unusable fault kept =>
    cases unusable with
    | length several => exact ⟨_, rfl, fault⟩

end

/-- The lines of a stream go to the requests of all calls in order, and what is behind the last of
those lines is left. Characters that are sent one per line are read back. -/
theorem requests_take_successive_lines {config : TapeConfig} {start : Tape}
    (accepted : Tape.ofConfig config = .ok start) :
    (∀ bytes, ∃ ls, Lines ls ∧ ls.flatten = bytes ∧ ∀ jobs,
      (∀ k request, (Job.requestsOf jobs start (.stream bytes))[k]? = some request →
        request.state.input = .stream (ls.drop k).flatten ∧
        (∃ token, TokenOf (ls.getD k []) token ∧ (ls.length ≤ k → token = .text []) ∧
          Answered config.limit request.state token request.answer) ∧
        request.answer.input = .stream (ls.drop (k + 1)).flatten) ∧
      ∀ input, Job.inputAfter? jobs start (.stream bytes) = some input →
        input = .stream (ls.drop (Job.requestsOf jobs start (.stream bytes)).length).flatten) ∧
    ∀ cs text, (∀ c ∈ cs, c.toNat < config.limit ∧ c.toNat ≤ 255 ∧ c ≠ '\n' ∧ c ≠ '\r') →
      OnePerLine cs text → ∀ jobs k request,
        (Job.requestsOf jobs start (.stream (Text.encode text)))[k]? = some request →
        (∀ c, cs[k]? = some c → ∃ t, request.answer = .next t ∧ t.tape.cell = c.toNat) ∧
        (cs.length ≤ k → ∃ halt, request.answer = .stop halt ∧
          halt.fault? = some (.located (request.state.cursor + 1) (.wrongLength []))) := by
  obtain ⟨valid, rfl⟩ := Tape.ofConfig_eq_ok_iff.mp accepted
  have blank : (Tape.blank config).Fits config := Tape.fits_blank valid
  constructor
  · intro bytes
    obtain ⟨ls, lines, rfl⟩ := Input.exists_lines bytes
    refine ⟨ls, lines, rfl, fun jobs => ?_⟩
    obtain ⟨rest, served, ended⟩ := Job.served_all jobs blank lines
    rw [served.rest_eq] at ended
    refine ⟨fun k request found => ?_, ended⟩
    obtain ⟨before, answered, after⟩ := served.answered_at found
    refine ⟨before, ⟨_, Input.tokenOf_lineToken _, ?_, answered⟩, after⟩
    intro beyond
    rw [List.getD_eq_getElem?_getD, List.getElem?_eq_none beyond]
    rfl
  · intro cs text good typed jobs k request found
    obtain ⟨ls, lines, whole, received⟩ := typed.receivedAs fun c member => (good c member).2.2
    rw [← whole] at found
    obtain ⟨rest, served, _⟩ := Job.served_all jobs blank lines
    obtain ⟨_, answered, _⟩ := served.answered_at found
    rw [Input.lineToken_getD received] at answered
    constructor
    · intro c here
      obtain ⟨fits, small, _⟩ := good c (List.mem_of_getElem? here)
      rw [here] at answered
      exact answered.stored_of_char small fits
    · intro beyond
      rw [List.getElem?_eq_none beyond] at answered
      exact answered.refused_of_empty

def readers : List Job :=
  List.replicate 5 ⟨{ fuel := 2 }, [',']⟩ ++ [⟨{ fuel := 5 }, ['[', ',', ']']⟩]

/-- One of the lines is blank, one is no text, one is a character above the limit and one a
character above U+00FF; the loop takes the last line, which nothing ends, and then the end of the
stream. Characters sent with different line ends are read back. -/
theorem requests_take_lines_through_faults :
    (∃ ls, Lines ls ∧
      ls.flatten = [65, 13, 10, 10, 255, 10, 195, 191, 10, 196, 128, 10, 66] ∧
      Job.inputAfter? readers (Tape.blank ⟨1, 128⟩) (.stream ls.flatten) =
        some (.stream (ls.drop 7).flatten)) ∧
    ∃ first second third later,
      Job.requestsOf readers (Tape.blank ⟨1, 128⟩)
        (.stream (Text.encode ['a', '\r', '\n', 'b', '\n'])) = first :: second :: third :: later ∧
      (∃ t, first.answer = .next t ∧ t.tape.cell = 97) ∧
      (∃ t, second.answer = .next t ∧ t.tape.cell = 98) ∧
      ∃ halt, third.answer = .stop halt ∧
        halt.fault? = some (.located (third.state.cursor + 1) (.wrongLength [])) := by
  have accepted : Tape.ofConfig ⟨1, 128⟩ = .ok (Tape.blank ⟨1, 128⟩) := rfl
  obtain ⟨streams, typed⟩ := requests_take_successive_lines accepted
  constructor
  · obtain ⟨ls, lines, whole, served⟩ :=
      streams [65, 13, 10, 10, 255, 10, 195, 191, 10, 196, 128, 10, 66]
    have count : (Job.requestsOf readers (Tape.blank ⟨1, 128⟩)
        (.stream [65, 13, 10, 10, 255, 10, 195, 191, 10, 196, 128, 10, 66])).length = 7 := by
      decide +kernel
    have back : (Job.inputAfter? readers (Tape.blank ⟨1, 128⟩)
        (.stream [65, 13, 10, 10, 255, 10, 195, 191, 10, 196, 128, 10, 66])).isSome = true := by
      decide +kernel
    obtain ⟨input, back⟩ := Option.isSome_iff_exists.mp back
    refine ⟨ls, lines, whole, ?_⟩
    rw [whole, back, (served readers).2 input back, count]
  · have good : ∀ c ∈ ['a', 'b'], c.toNat < 128 ∧ c.toNat ≤ 255 ∧ c ≠ '\n' ∧ c ≠ '\r' := by
      intro c member
      rcases List.mem_cons.mp member with rfl | last
      · decide
      · cases List.mem_singleton.mp last
        decide
    have answered := typed ['a', 'b'] _ good (.carriage (.feed .nil)) readers
    have count : (Job.requestsOf readers (Tape.blank ⟨1, 128⟩)
        (.stream (Text.encode ['a', '\r', '\n', 'b', '\n']))).length = 6 := by
      decide +kernel
    generalize Job.requestsOf readers (Tape.blank ⟨1, 128⟩)
      (.stream (Text.encode ['a', '\r', '\n', 'b', '\n'])) = requests at answered count
    rcases requests with _ | ⟨first, _ | ⟨second, _ | ⟨third, later⟩⟩⟩
    · cases count
    · cases count
    · cases count
    · exact ⟨first, second, third, later, rfl, (answered 0 first rfl).1 'a' rfl,
        (answered 1 second rfl).1 'b' rfl, (answered 2 third rfl).2 (Nat.le_refl 2)⟩

end TapeMachine
