import TapeMachine.Proofs.Text.Line
import TapeMachine.Session

/-
What a session takes a submission for, and what it does with each kind. Its first visible character
decides: a colon makes it a command, which may be malformed, anything else a program. Programs with
the same stripped code do the same. Of submissions in sequence those after an exit are not made.
-/
namespace TapeMachine

open Source Text

namespace Script

theorem isCommandLine_iff {s : List Char} :
    isCommandLine s = true ↔ (trimStart s).head? = some ':' := by
  simp [isCommandLine]

theorem isCommandLine_trim (s : List Char) : isCommandLine (trim s) = isCommandLine s := by
  unfold isCommandLine
  rw [trimStart_trim, head?_trim]

theorem not_blank_of_isCommandLine {s : List Char} (command : isCommandLine s = true) :
    s.all isBlank = false := by
  rw [Bool.eq_false_iff]
  intro blank
  rw [isCommandLine, trimStart_eq_nil_iff.mpr blank] at command
  cases command

theorem isCommandLine_dropReturn (line : List Char) :
    isCommandLine (dropReturn line) = isCommandLine line := by
  rw [← isCommandLine_trim, trim_dropReturn, isCommandLine_trim]

theorem isCommandLine_append (s t : List Char) :
    isCommandLine (s ++ t) = if s.all isBlank then isCommandLine t else isCommandLine s := by
  unfold isCommandLine
  rw [trimStart_append]
  split
  · rfl
  · rename_i visible
    obtain ⟨c, cs, found⟩ :=
      List.exists_cons_of_ne_nil (mt trimStart_eq_nil_iff.mp visible : trimStart s ≠ [])
    simp [found]

theorem isCommandLine_unlines_append {ls : List (List Char)} {tail : List Char}
    (plain : ∀ line ∈ ls, isCommandLine line = false) (last : isCommandLine tail = false) :
    isCommandLine (unlines ls ++ tail) = false := by
  induction ls with
  | nil => exact last
  | cons line ls ih =>
    have later := ih fun line member => plain line (List.mem_cons_of_mem _ member)
    have whole : unlines (line :: ls) ++ tail = line ++ (['\n'] ++ (unlines ls ++ tail)) := by
      simp [unlines_cons]
    have feed : ['\n'].all isBlank = true := by decide
    rw [whole, isCommandLine_append, isCommandLine_append, later, plain line List.mem_cons_self]
    simp [feed]

theorem isCommandLine_unlines {ls : List (List Char)}
    (plain : ∀ line ∈ ls, isCommandLine line = false) : isCommandLine (unlines ls) = false := by
  have whole := isCommandLine_unlines_append plain (rfl : isCommandLine [] = false)
  rwa [List.append_nil] at whole

end Script

namespace Command

open Script (isCommandLine)

theorem ofText?_trim (s : List Char) : ofText? (trim s) = ofText? s := by
  unfold ofText?
  rw [trim_trim]

theorem ofText?_eq_none_iff {s : List Char} : ofText? s = none ↔ isCommandLine s = false := by
  rw [← Bool.not_eq_true, Script.isCommandLine_iff, ← head?_trim, ofText?]
  split
  · rename_i found
    simp [found]
  · rename_i other
    simp only [true_iff]
    intro colon
    obtain ⟨rest, found⟩ := List.head?_eq_some_iff.mp colon
    exact other rest found

theorem exists_ofText?_iff {s : List Char} :
    (∃ read, ofText? s = some read) ↔ isCommandLine s = true := by
  rw [← Option.ne_none_iff_exists', ne_eq, ofText?_eq_none_iff, Bool.not_eq_false]

end Command

inductive Submission
  | blank
  | command (read : Except CommandError Command)
  | program

namespace Submission

def ofText (text : List Char) : Submission :=
  if text.all isBlank then .blank
  else
    match Command.ofText? text with
    | some read => .command read
    | none => .program

variable {text : List Char}

theorem ofText_of_read {read : Except CommandError Command}
    (found : Command.ofText? text = some read) : ofText text = .command read := by
  have visible : text.all isBlank = false :=
    Script.not_blank_of_isCommandLine (Command.exists_ofText?_iff.mp ⟨read, found⟩)
  simp [ofText, visible, found]

theorem ofText_eq_program_iff :
    ofText text = .program ↔ text.all isBlank = false ∧ Script.isCommandLine text = false := by
  rw [← Command.ofText?_eq_none_iff, ofText]
  split
  · simp_all
  · split <;> simp_all

end Submission

def Reply.andThen (first : Reply) (later : Session → Option Reply) : Option Reply :=
  match first.flow with
  | .exit => some first
  | .goOn =>
    (later first.session).map fun last => { last with printed := first.printed ++ last.printed }

namespace Session

variable {palette : Palette} {fuel : Nat} {s : Session} {a b : List Char} {reply : Reply}

def answer (palette : Palette) (s : Session) : Except CommandError Command → Reply
  | .ok command => s.obey palette command
  | .error e => { session := s, printed := { err := "repl: " ++ e.message ++ "\n" } }

theorem submit_eq (palette : Palette) (fuel : Nat) (s : Session) (text : List Char) :
    s.submit palette fuel text =
      match Submission.ofText text with
      | .blank => some { session := s }
      | .command read => some (s.answer palette read)
      | .program => s.runProgram palette fuel text := by
  unfold submit Submission.ofText
  split
  · rfl
  · rcases Command.ofText? text with none | (error | command) <;> rfl

theorem submit_command {read : Except CommandError Command}
    (found : Command.ofText? a = some read) :
    s.submit palette fuel a = some (s.answer palette read) := by
  rw [submit_eq, Submission.ofText_of_read found]

theorem submit_program (program : Submission.ofText a = .program) :
    s.submit palette fuel a = s.runProgram palette fuel a := by
  rw [submit_eq, program]

theorem runProgram_eq_some_iff :
    s.runProgram palette fuel a = some reply ↔
      ∃ o, execute { fuel, rails := s.rails } a s.tape s.input = some o ∧
        reply = { session := { tape := o.tape, rails := s.rails, input := o.input }
                  printed := Report.outcome palette none a o } := by
  simp only [runProgram, Option.map_eq_some_iff, eq_comm (a := reply)]

end Session

end TapeMachine
