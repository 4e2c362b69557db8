import TapeMachine.CommandLine.Run
import TapeMachine.Proofs.Execution.StepLimit

/-
One program, once in a file and once as the code on the line. If it is accepted and has an
instruction both are answered alike. If it is rejected the fault has the same headline, although the
file is refused before the run and the code by it. Without any instruction the file is refused and
the code succeeds.
-/
namespace TapeMachine.CommandLine

open Source

variable {world : Surroundings} {options : RunOptions} {plan : Run.Plan} {tape : Tape}
variable {path source : List Char}

def RunOptions.withFile (options : RunOptions) (path : List Char) : RunOptions :=
  { options with file? := some path, code := [] }

def RunOptions.withCode (options : RunOptions) (source : List Char) : RunOptions :=
  { options with file? := none, code := [source] }

/-- A program file that can be read. -/
structure StoredAt (read : Reader) (path source : List Char) : Prop where
  named : Path.extension? path = some programExtension
  readable : read path = .ok (Text.encode source)

theorem StoredAt.loaded {read : Reader} (stored : StoredAt read path source) :
    (∀ fault, sanitize source = .error fault →
        loadProgram read path = .error (.rejected fault)) ∧
      (sanitize source = .ok [] → loadProgram read path = .error .empty) ∧
      ∀ c cs, sanitize source = .ok (c :: cs) → loadProgram read path = .ok source := by
  have named : ¬ Path.extension? path ≠ some programExtension := not_not_intro stored.named
  simp only [loadProgram, if_neg named, stored.readable, Text.decode?_encode]
  refine ⟨?rejected, ?empty, ?accepted⟩
  case rejected =>
    intro fault rejected
    rw [rejected]
  case empty =>
    intro empty
    rw [empty]
  case accepted =>
    intro c cs accepted
    rw [accepted]

/-- Before the run only comments and the numbers of brackets are looked at. -/
theorem headline_of_rejected {fault : Fault} (rejected : sanitize source = .error fault) :
    ∃ position cause, fault = .located position cause ∧
      fault.headline =
        "SyntaxError: at position " ++ toString position ++ " - " ++ cause.detail ∧
      fault.message = fault.headline ∧ ∀ palette, Report.advice palette fault = "" := by
  obtain ⟨position, cause, defect, rfl⟩ := sanitize_eq_error_iff.mp rejected
  refine ⟨position, cause, rfl, ?_⟩
  rcases defect?_eq_some_iff.mp defect with ⟨_, _, _, marker⟩ | ⟨_, _, _, _, brackets⟩
  · rw [marker]
    exact ⟨rfl, rfl, fun _ => rfl⟩
  · rw [brackets]
    exact ⟨rfl, rfl, fun _ => rfl⟩

namespace Run

/-- The options, the variables and the settings agree on a tape that can be built, and set no
timeout. -/
structure Ready (world : Surroundings) (options : RunOptions) (plan : Plan) (tape : Tape) :
    Prop where
  planned : ∃ settings, world.settings = .ok settings ∧ Plan.of world settings options = plan
  built : Tape.ofConfig plan.tape = .ok tape
  untimed : plan.timeout? = none

/-- The first line of what is reported of a program that is rejected. -/
def syntaxHeader (palette : Palette) (program : String) (position : Nat) (cause : Cause) : String :=
  palette.error.paint
    (program ++ ": " ++
      ("SyntaxError: at position " ++ toString position ++ " - " ++ cause.detail)) ++ "\n"

variable {program : String} {fuel : Nat}

theorem answer_help (asked : options.help = true) :
    answer program fuel world options = .ok (usage program 0) := by
  rw [answer, if_pos asked]

theorem Ready.answer_eq (ready : Ready world options plan tape) (working : options.help = false)
    (single : options.file?.isSome = options.code.isEmpty) :
    (∀ source, Run.source world options = .ok source →
        answer program fuel world options = runSource program fuel world plan tape source) ∧
      ∀ e, Run.source world options = .error e →
        answer program fuel world options =
          .ok { code := 1, printed := { err := e.report plan.palette (some program) none } } := by
  obtain ⟨⟨settings, found, rfl⟩, built, _⟩ := ready
  have given : ¬ (options.file?.isNone = true ∧ options.code.isEmpty = true) := by
    rw [← single]
    simp
  have compatible : ¬ (options.file?.isSome = true ∧ (!options.code.isEmpty) = true) := by
    rw [single]
    simp
  simp only [answer, working, Bool.false_eq_true, if_false, if_neg given, if_neg compatible, found,
    carryOut, built]
  constructor
  · intro source found
    rw [found]
  · intro e failed
    rw [failed]

theorem Ready.answer_code (ready : Ready world options plan tape)
    (working : options.help = false) (source : List Char) :
    answer program fuel world (options.withCode source) =
      runSource program fuel world plan tape source := by
  have same : Ready world (options.withCode source) plan tape :=
    ⟨ready.planned, ready.built, ready.untimed⟩
  have whole : Run.source world (options.withCode source) = .ok source :=
    congrArg Except.ok (List.append_nil source)
  exact (same.answer_eq working rfl).1 source whole

theorem Ready.answer_file (ready : Ready world options plan tape) (working : options.help = false)
    (path : List Char) :
    (∀ source, loadProgram world.read path = .ok source →
        answer program fuel world (options.withFile path) =
          runSource program fuel world plan tape source) ∧
      ∀ e, loadProgram world.read path = .error e →
        answer program fuel world (options.withFile path) =
          .ok { code := 1, printed := { err := e.report plan.palette (some program) none } } := by
  have same : Ready world (options.withFile path) plan tape :=
    ⟨ready.planned, ready.built, ready.untimed⟩
  exact same.answer_eq working rfl

theorem runSource_of_ran {outcome : Outcome}
    (ran : execute (plan.mode fuel) source tape (.stream world.stdin) = some outcome) :
    runSource program fuel world plan tape source = .ok (finished program plan source outcome) := by
  rw [runSource, ran]

theorem mode_of_untimed (untimed : plan.timeout? = none) (fuel : Nat) :
    plan.mode fuel = { fuel, rails := plan.rails, control := { maxSteps? := plan.maxSteps? } } := by
  rw [Plan.mode, untimed]

theorem err_dumpAfter (plan : Plan) (tape : Tape) : (dumpAfter plan tape).err = "" := by
  unfold dumpAfter
  split <;> rfl

theorem finished_rejected {position : Nat} {cause : Cause} {input : Input}
    (headline : (Fault.located position cause).headline =
      "SyntaxError: at position " ++ toString position ++ " - " ++ cause.detail)
    (plain : Report.advice plan.palette (.located position cause) = "") :
    finished program plan source
        { result := .error (.located position cause), tape, input, output := #[] } =
      { code := 1
        printed :=
          { out := "\n" ++ (dumpAfter plan tape).out
            err := syntaxHeader plan.palette program position cause ++
              Report.context source (some position) } } := by
  have reported : Report.fault plan.palette (some program) source (.located position cause) =
      syntaxHeader plan.palette program position cause ++
        Report.context source (some position) := by
    rw [Report.fault, headline, plain, String.append_empty]
    rfl
  have printed : Report.outcome plan.palette (some program) source
      { result := .error (.located position cause), tape, input, output := #[] } =
        { out := "\n"
          err := syntaxHeader plan.palette program position cause ++
            Report.context source (some position) } := by
    rw [← reported]
    rfl
  rw [finished, printed]
  show Exit.mk 1 (Printed.mk _ (_ ++ (dumpAfter plan tape).err)) = _
  rw [err_dumpAfter, String.append_empty]

theorem finished_idle {input : Input} :
    finished program plan source { result := .ok ⟨0, 0⟩, tape, input, output := #[] } =
      { code := 0
        printed :=
          { out := (dumpAfter plan tape).out, err := Report.noOutput plan.palette } } := by
  have printed : Report.outcome plan.palette (some program) source
      { result := .ok ⟨0, 0⟩, tape, input, output := #[] } =
        { err := Report.noOutput plan.palette } := rfl
  rw [finished, printed]
  show Exit.mk 0 (Printed.mk ("" ++ (dumpAfter plan tape).out) (_ ++ (dumpAfter plan tape).err)) = _
  rw [err_dumpAfter, String.append_empty, String.empty_append]

/-- A program is answered in the same way from a file as from the line, dump and all, if it is
accepted and has an instruction. If it is rejected, both report the same line first, and neither
takes a turn; the line then also shows the code around the fault. Without any instruction the file
is refused, without a turn, and the line succeeds. Help comes before any of this. -/
theorem file_and_line_run_alike (program : String)
    (stored : StoredAt world.read path source) (ready : Ready world options plan tape) :
    (options.help = true → ∀ fuel,
      answer program fuel world (options.withFile path) = .ok (usage program 0) ∧
      answer program fuel world (options.withCode source) = .ok (usage program 0)) ∧
    (options.help = false →
      (∀ code, sanitize source = .ok code → code ≠ [] → ∀ fuel,
        answer program fuel world (options.withFile path) =
          answer program fuel world (options.withCode source) ∧
        ∀ outcome, execute (plan.mode fuel) source tape (.stream world.stdin) = some outcome →
          answer program fuel world (options.withCode source) =
            .ok (finished program plan source outcome)) ∧
      (∀ fault, sanitize source = .error fault →
        ∃ position cause, fault = .located position cause ∧
          (∀ mode input, execute mode source tape input =
            some { result := .error fault, tape, input, output := #[] }) ∧
          ∀ fuel,
            answer program fuel world (options.withFile path) =
              .ok
                { code := 1
                  printed := { err := syntaxHeader plan.palette program position cause } } ∧
            answer program fuel world (options.withCode source) =
              .ok
                { code := 1
                  printed :=
                    { out := "\n" ++ (dumpAfter plan tape).out
                      err := syntaxHeader plan.palette program position cause ++
                        Report.context source (some position) } }) ∧
      (sanitize source = .ok [] → ∀ fuel,
        answer program fuel world (options.withFile path) =
          .ok
            { code := 1
              printed :=
                { err := Report.headline plan.palette (some program) LoadError.empty.message } } ∧
        answer program (fuel + 1) world (options.withCode source) =
          .ok
            { code := 0
              printed :=
                { out := (dumpAfter plan tape).out, err := Report.noOutput plan.palette } })) := by
  obtain ⟨refused, vacant, loaded⟩ := stored.loaded
  constructor
  · intro asked fuel
    exact ⟨answer_help asked, answer_help asked⟩
  · intro working
    refine ⟨?accepted, ?rejected, ?empty⟩
    case accepted =>
      intro code accepted nonempty fuel
      obtain ⟨c, cs, rfl⟩ := List.exists_cons_of_ne_nil nonempty
      have file : answer program fuel world (options.withFile path) =
          runSource program fuel world plan tape source :=
        (ready.answer_file working path).1 source (loaded c cs accepted)
      have line : answer program fuel world (options.withCode source) =
          runSource program fuel world plan tape source :=
        ready.answer_code working source
      rw [file, line]
      exact ⟨rfl, fun outcome ran => runSource_of_ran ran⟩
    case rejected =>
      intro fault rejected
      obtain ⟨position, cause, rfl, headline, message, plain⟩ := headline_of_rejected rejected
      refine ⟨position, cause, rfl, fun mode input => execute_rejected rejected mode, ?_⟩
      intro fuel
      constructor
      · rw [(ready.answer_file working path).2 _ (refused _ rejected), LoadError.report, message,
          headline]
        rfl
      · rw [ready.answer_code working, runSource_of_ran (execute_rejected rejected _),
          finished_rejected headline (plain _)]
    case empty =>
      intro empty fuel
      constructor
      · rw [(ready.answer_file working path).2 _ (vacant empty)]
        rfl
      · have ran : execute (plan.mode (fuel + 1)) source tape (.stream world.stdin) =
            some ⟨.ok ⟨0, 0⟩, tape, .stream world.stdin, #[]⟩ := by
          rw [mode_of_untimed ready.untimed]
          exact execute_mono (Nat.le_add_left 1 fuel) (execute_without_code empty _)
        rw [ready.answer_code working, runSource_of_ran ran, finished_idle]

def onlyFile (path source : List Char) : Reader := fun asked =>
  if asked = path then .ok (Text.encode source) else .error .missing

/-- A loop that is never closed, asked for with a dump and without any turn to take. -/
theorem file_and_line_report_open_loop :
    StoredAt (onlyFile "a.bf".toList "+[".toList) "a.bf".toList "+[".toList ∧
      answer "bf" 0 { read := onlyFile "a.bf".toList "+[".toList }
          (RunOptions.withFile { capacity? := some 1, dump? := some 1 } "a.bf".toList) =
        .ok
          { code := 1
            printed := { err := syntaxHeader .default "bf" 2 .unterminatedLoops } } ∧
      answer "bf" 0 { read := onlyFile "a.bf".toList "+[".toList }
          (RunOptions.withCode { capacity? := some 1, dump? := some 1 } "+[".toList) =
        .ok
          { code := 1
            printed :=
              { out := "\n" ++ (Tape.dump .default ⟨#[0], 0, 256⟩ 1 0 ++ "\n")
                err := syntaxHeader .default "bf" 2 .unterminatedLoops ++ "  +[\n   ^\n" } } := by
  have stored : StoredAt (onlyFile "a.bf".toList "+[".toList) "a.bf".toList "+[".toList :=
    ⟨by decide, rfl⟩
  have ready : Ready { read := onlyFile "a.bf".toList "+[".toList }
      { capacity? := some 1, dump? := some 1 }
      (Plan.of { read := onlyFile "a.bf".toList "+[".toList } {}
        { capacity? := some 1, dump? := some 1 })
      ⟨#[0], 0, 256⟩ :=
    ⟨⟨{}, rfl, rfl⟩, rfl, rfl⟩
  have rejected : sanitize "+[".toList = .error (.located 2 .unterminatedLoops) := by cbv
  obtain ⟨_, _, same, _, reports⟩ :=
    ((file_and_line_run_alike "bf" stored ready).2 rfl).2.1 _ rejected
  cases same
  have context : Report.context "+[".toList (some 2) = "  +[\n   ^\n" := by
    have stripped : strip "+[".toList = "+[".toList := by cbv
    rw [Report.context, stripped]
    rfl
  rw [← context]
  exact ⟨stored, reports 0⟩

end Run

end TapeMachine.CommandLine
