import TapeMachine.Proofs.Session.Submission

/-
Submissions that only look. Blank submissions, help, dumps and malformed commands leave the session
as it is, so a history goes the same way without them. Of the other submissions only programs and
resets touch the tape, and only the command for the guard rails touches those.
-/
namespace TapeMachine

namespace Submission

def isObserver : Submission → Bool
  | .blank | .command (.ok .help) | .command (.ok (.dump _ _)) | .command (.error _) => true
  | .command (.ok .exit) | .command (.ok .reset) | .command (.ok .rails) | .program => false

def isToggle : Submission → Bool
  | .command (.ok .rails) => true
  | _ => false

def observes (text : List Char) : Bool := (ofText text).isObserver

def toggles (text : List Char) : Bool := (ofText text).isToggle

end Submission

open Submission (observes toggles)

namespace Session

structure Exchange where
  submission : List Char
  reply : Reply

/-- Submissions in sequence, each made whatever the flow of those before, with their replies. If a
program does not stop within the fuel, nothing comes after it. -/
def exchanges (palette : Palette) (fuel : Nat) (s : Session) : List (List Char) → List Exchange
  | [] => []
  | text :: rest =>
    match s.submit palette fuel text with
    | none => []
    | some reply => ⟨text, reply⟩ :: exchanges palette fuel reply.session rest

def after? (palette : Palette) (fuel : Nat) (s : Session) : List (List Char) → Option Session
  | [] => some s
  | text :: rest =>
    match s.submit palette fuel text with
    | none => none
    | some reply => after? palette fuel reply.session rest

variable {palette : Palette} {fuel : Nat} {s last : Session} {text : List Char} {reply : Reply}

/-- What a submission does, by what it is taken for. -/
theorem submit_cases (submitted : s.submit palette fuel text = some reply) :
    (Submission.ofText text = .blank ∧ reply = { session := s }) ∨
      (∃ read, Submission.ofText text = .command read ∧ reply = s.answer palette read) ∨
      (Submission.ofText text = .program ∧ ∃ o,
        execute { fuel, rails := s.rails } text s.tape s.input = some o ∧
        reply = { session := { tape := o.tape, rails := s.rails, input := o.input }
                  printed := Report.outcome palette none text o }) := by
  rw [submit_eq] at submitted
  cases kind : Submission.ofText text with
  | blank =>
    rw [kind] at submitted
    exact .inl ⟨rfl, (Option.some.inj submitted).symm⟩
  | command read =>
    rw [kind] at submitted
    exact .inr (.inl ⟨read, rfl, (Option.some.inj submitted).symm⟩)
  | program =>
    rw [kind] at submitted
    exact .inr (.inr ⟨rfl, runProgram_eq_some_iff.mp submitted⟩)

theorem answer_observer {read : Except CommandError Command}
    (observer : (Submission.command read).isObserver = true) :
    (s.answer palette read).session = s := by
  rcases read with error | command
  · rfl
  · cases command with
    | help | dump => rfl
    | exit | reset | rails => cases observer

theorem submit_observer (observer : observes text = true) (palette : Palette) (fuel : Nat)
    (s : Session) : ∃ reply, s.submit palette fuel text = some reply ∧ reply.session = s := by
  unfold observes at observer
  rw [submit_eq]
  cases kind : Submission.ofText text with
  | blank => exact ⟨_, rfl, rfl⟩
  | command read =>
    rw [kind] at observer
    exact ⟨_, rfl, answer_observer observer⟩
  | program =>
    rw [kind] at observer
    cases observer

theorem rails_answer (read : Except CommandError Command) :
    (s.answer palette read).session.rails =
      if (Submission.command read).isToggle then !s.rails else s.rails := by
  rcases read with error | command
  · rfl
  · cases command <;> rfl

theorem rails_submit (submitted : s.submit palette fuel text = some reply) :
    reply.session.rails = if toggles text then !s.rails else s.rails := by
  unfold toggles
  rcases submit_cases submitted with ⟨kind, same⟩ | ⟨read, kind, same⟩ | ⟨kind, o, _, same⟩
  · rw [kind, same]
    rfl
  · rw [kind, same]
    exact rails_answer read
  · rw [kind, same]
    rfl

theorem tape_submit (submitted : s.submit palette fuel text = some reply)
    (changed : reply.session.tape ≠ s.tape) :
    Submission.ofText text = .program ∨ Submission.ofText text = .command (.ok .reset) := by
  rcases submit_cases submitted with ⟨_, same⟩ | ⟨read, kind, same⟩ | ⟨kind, _⟩
  · exact absurd (congrArg (·.session.tape) same) changed
  · rcases read with error | command
    · exact absurd (congrArg (·.session.tape) same) changed
    · cases command with
      | reset => exact .inr kind
      | exit | help | dump | rails => exact absurd (congrArg (·.session.tape) same) changed
  · exact .inl kind

theorem history_filter (palette : Palette) (fuel : Nat) (s : Session) (texts : List (List Char)) :
    s.exchanges palette fuel (texts.filter (!observes ·)) =
        (s.exchanges palette fuel texts).filter (!observes ·.submission) ∧
      s.after? palette fuel (texts.filter (!observes ·)) = s.after? palette fuel texts := by
  induction texts generalizing s with
  | nil => exact ⟨rfl, rfl⟩
  | cons text texts ih =>
    cases kind : observes text with
    | true =>
      obtain ⟨reply, submitted, same⟩ := submit_observer kind palette fuel s
      simp [exchanges, after?, kind, submitted, same, ih]
    | false =>
      cases submitted : s.submit palette fuel text with
      | none => simp [exchanges, after?, kind, submitted]
      | some reply => simp [exchanges, after?, kind, submitted, ih]

theorem repeat_not (n : Nat) (b : Bool) : Nat.repeat not n (!b) = !Nat.repeat not n b := by
  induction n with
  | zero => rfl
  | succ n ih => exact congrArg not ih

theorem rails_after {texts : List (List Char)} (left : s.after? palette fuel texts = some last) :
    last.rails = Nat.repeat not (texts.countP toggles) s.rails := by
  induction texts generalizing s with
  | nil =>
    cases left
    rfl
  | cons text texts ih =>
    cases submitted : s.submit palette fuel text with
    | none => simp [after?, submitted] at left
    | some reply =>
      simp only [after?, submitted] at left
      have first := rails_submit submitted
      cases kind : toggles text with
      | true =>
        rw [kind, if_pos rfl] at first
        rw [ih left, first, List.countP_cons_of_pos kind, repeat_not]
        rfl
      | false =>
        rw [kind, if_neg Bool.false_ne_true] at first
        rw [ih left, first, List.countP_cons_of_neg (Bool.eq_false_iff.mp kind)]

/-- A history goes the same way without the submissions that only look: the others get the same
replies and leave the same session. The guard rails are toggled by the command for them and nothing
else, and the tape is changed by programs and resets only. -/
theorem observers_leave_no_trace (palette : Palette) (fuel : Nat) (s : Session)
    (texts : List (List Char)) :
    s.exchanges palette fuel (texts.filter (!observes ·)) =
        (s.exchanges palette fuel texts).filter (!observes ·.submission) ∧
      s.after? palette fuel (texts.filter (!observes ·)) = s.after? palette fuel texts ∧
      (∀ last, s.after? palette fuel texts = some last →
        last.rails = Nat.repeat not (texts.countP toggles) s.rails) ∧
      ∀ (t : Session) text reply, t.submit palette fuel text = some reply →
        (Submission.ofText text = .program → reply.session.rails = t.rails) ∧
        (reply.session.tape ≠ t.tape →
          Submission.ofText text = .program ∨
            Submission.ofText text = .command (.ok .reset)) := by
  obtain ⟨replies, left⟩ := history_filter palette fuel s texts
  refine ⟨replies, left, ?rails, ?step⟩
  case rails =>
    intro last left
    exact rails_after left
  case step =>
    intro t text reply submitted
    refine ⟨?_, tape_submit submitted⟩
    intro program
    rw [rails_submit submitted, toggles, program]
    rfl

/-- A program that uses up a token and faults, among submissions that only look. -/
theorem observers_leave_no_trace_around_fault :
    ∃ reply last,
      submit .default 2 ⟨.blank ⟨1, 256⟩, false, .queue [.text ['A'], .text ['B']]⟩ [',', '>'] =
        some reply ∧
      reply.session.tape ≠ .blank ⟨1, 256⟩ ∧ reply.session.rails = false ∧
      after? .default 2 ⟨.blank ⟨1, 256⟩, false, .queue [.text ['A'], .text ['B']]⟩
        [" \t".toList, [',', '>'], ":dump x".toList, ":rails".toList, ":help".toList] =
          some last ∧
      last.tape = reply.session.tape ∧ last.input = .queue [.text ['B']] ∧
      last.rails = Nat.repeat not 1 false := by
  have accepted : Source.sanitize [',', '>'] = .ok [',', '>'] := by cbv
  have ran : execute { fuel := 2 } [',', '>'] (.blank ⟨1, 256⟩)
      (.queue [.text ['A'], .text ['B']]) =
        some ⟨.error (.located 2 (.outOfBounds 0 .right)), ⟨#[65], 0, 256⟩,
          .queue [.text ['B']], #[]⟩ := by
    simp only [execute, accepted]
    rfl
  obtain ⟨printed, submitted⟩ : ∃ printed,
      submit .default 2 ⟨.blank ⟨1, 256⟩, false, .queue [.text ['A'], .text ['B']]⟩ [',', '>'] =
        some ⟨⟨⟨#[65], 0, 256⟩, false, .queue [.text ['B']]⟩, printed, .goOn⟩ := by
    rw [submit_program rfl]
    exact ⟨_, runProgram_eq_some_iff.mpr ⟨_, ran, rfl⟩⟩
  obtain ⟨_, same, toggled, step⟩ := observers_leave_no_trace .default 2
    ⟨.blank ⟨1, 256⟩, false, .queue [.text ['A'], .text ['B']]⟩
    [" \t".toList, [',', '>'], ":dump x".toList, ":rails".toList, ":help".toList]
  have kept : [" \t".toList, [',', '>'], ":dump x".toList, ":rails".toList,
      ":help".toList].filter (!observes ·) = [[',', '>'], ":rails".toList] := by decide
  have left : after? .default 2 ⟨.blank ⟨1, 256⟩, false, .queue [.text ['A'], .text ['B']]⟩
      [" \t".toList, [',', '>'], ":dump x".toList, ":rails".toList, ":help".toList] =
        some ⟨⟨#[65], 0, 256⟩, true, .queue [.text ['B']]⟩ := by
    rw [← same, kept]
    simp only [after?, submitted]
    rfl
  refine ⟨_, _, submitted, ?_, (step _ _ _ submitted).1 rfl, left, rfl, rfl, toggled _ left⟩
  intro blank
  cases blank

end Session

end TapeMachine
