import TapeMachine.Proofs.Execution.History
import TapeMachine.Proofs.Session.Observers

/-
What a reset leaves of a session. No submission, whatever it is and however it ends, changes the
size or the limit of the tape, so a reset makes it the blank tape of its configuration. Nothing of
earlier submissions is left then but the guard rails and how much of the input they used up.
-/
namespace TapeMachine.Session

variable {palette : Palette} {fuel : Nat} {s last : Session} {text : List Char} {reply : Reply}
  {config : TapeConfig} {rails : Bool}

theorem answer_fits (valid : config.Valid) (fits : s.tape.Fits config)
    (read : Except CommandError Command) :
    (s.answer palette read).session.tape.Fits config := by
  rcases read with error | command
  · exact fits
  · cases command with
    | reset => exact fits.reset valid
    | exit | help | dump | rails => exact fits

theorem submit_fits (valid : config.Valid) (fits : s.tape.Fits config)
    (submitted : s.submit palette fuel text = some reply) :
    reply.session.tape.Fits config := by
  rcases submit_cases submitted with ⟨_, rfl⟩ | ⟨read, _, rfl⟩ | ⟨_, o, ran, rfl⟩
  · exact fits
  · exact answer_fits valid fits read
  · exact execute_fits fits ran

theorem after?_fits {texts : List (List Char)} (valid : config.Valid)
    (fits : s.tape.Fits config) (left : s.after? palette fuel texts = some last) :
    last.tape.Fits config := by
  induction texts generalizing s with
  | nil =>
    cases left
    exact fits
  | cons text texts ih =>
    cases submitted : s.submit palette fuel text with
    | none => simp [after?, submitted] at left
    | some reply =>
      simp only [after?, submitted] at left
      exact ih (submit_fits valid fits submitted) left

theorem after?_append (palette : Palette) (fuel : Nat) (s : Session)
    (texts more : List (List Char)) :
    s.after? palette fuel (texts ++ more) =
      (s.after? palette fuel texts).bind (·.after? palette fuel more) := by
  induction texts generalizing s with
  | nil => rfl
  | cons text texts ih =>
    rw [List.cons_append, after?, after?]
    cases s.submit palette fuel text with
    | none => rfl
    | some reply => exact ih reply.session

theorem after?_command {read : Except CommandError Command}
    (found : Submission.ofText text = .command read) (palette : Palette) (fuel : Nat) (s : Session)
    (rest : List (List Char)) :
    s.after? palette fuel (text :: rest) =
      (s.answer palette read).session.after? palette fuel rest := by
  simp only [after?, submit_eq, found]

theorem after?_program {o : Outcome} (program : Submission.ofText text = .program)
    (ran : execute { fuel, rails := s.rails } text s.tape s.input = some o) (palette : Palette)
    (rest : List (List Char)) :
    s.after? palette fuel (text :: rest) =
      after? palette fuel { tape := o.tape, rails := s.rails, input := o.input } rest := by
  have submitted : s.submit palette fuel text = some _ :=
    (submit_program program).trans (runProgram_eq_some_iff.mpr ⟨o, ran, rfl⟩)
  simp only [after?, submitted]

/-- The session began with this configuration and these guard rails, and is what submissions left of
it, a reset the last of them. -/
def ResetFrom (config : TapeConfig) (rails : Bool) (s : Session) : Prop :=
  ∃ start input palette fuel texts text, Tape.ofConfig config = .ok start ∧
    Submission.ofText text = .command (.ok .reset) ∧
    after? palette fuel ⟨start, rails, input⟩ (texts ++ [text]) = some s

theorem ResetFrom.eq_blank (reset : s.ResetFrom config rails) :
    s = ⟨.blank config, s.rails, s.input⟩ := by
  obtain ⟨start, input, palette, fuel, texts, text, configured, resets, left⟩ := reset
  obtain ⟨valid, rfl⟩ := Tape.ofConfig_eq_ok_iff.mp configured
  rw [after?_append] at left
  obtain ⟨before, reached, last⟩ := Option.bind_eq_some_iff.mp left
  rw [after?_command resets] at last
  cases last
  have fits : before.tape.Fits config := after?_fits valid (Tape.fits_blank valid) reached
  show (⟨before.tape.reset, before.rails, before.input⟩ : Session) =
    ⟨.blank config, before.rails, before.input⟩
  rw [fits.reset_eq]

/-- Two histories of one configuration that end in a reset cannot be told apart by any later
submissions if they leave the same guard rails and the same input. A history that leaves the guard
rails as they were at first cannot be told apart from none. -/
theorem reset_isolates_runs {one two : Session} {rails other : Bool}
    (first : one.ResetFrom config rails) (second : two.ResetFrom config other) :
    (one.rails = two.rails → one.input = two.input → ∀ palette fuel texts,
      one.exchanges palette fuel texts = two.exchanges palette fuel texts ∧
        one.after? palette fuel texts = two.after? palette fuel texts) ∧
    (one.rails = rails → ∀ start, Tape.ofConfig config = .ok start → ∀ palette fuel texts,
      one.exchanges palette fuel texts = exchanges palette fuel ⟨start, rails, one.input⟩ texts ∧
        one.after? palette fuel texts = after? palette fuel ⟨start, rails, one.input⟩ texts) := by
  constructor
  · intro sameRails sameInput palette fuel texts
    have same : one = two := by
      rw [first.eq_blank, sameRails, sameInput, ← second.eq_blank]
    rw [same]
    exact ⟨rfl, rfl⟩
  · intro sameRails start configured palette fuel texts
    obtain ⟨_, rfl⟩ := Tape.ofConfig_eq_ok_iff.mp configured
    have same : one = ⟨.blank config, rails, one.input⟩ := by
      rw [← sameRails]
      exact first.eq_blank
    rw [← same]
    exact ⟨rfl, rfl⟩

/-- A program that uses up a token and faults off the last cell, and a history with other tokens and
other guard rails that is held there, each before a reset. -/
theorem reset_isolates_run_after_fault :
    ∃ one two,
      after? .default 4 ⟨.blank ⟨2, 256⟩, false, .queue [.text ['A'], .text ['B']]⟩
        [[',', '>', '>'], ":reset".toList] = some one ∧
      after? .default 4 ⟨.blank ⟨2, 256⟩, true, .queue [.text ['C'], .text ['B']]⟩
        [[',', '>', '>'], ":rails".toList, " :reset all\n".toList] = some two ∧
      one.exchanges .default 4 [[',', '>', '>', '.']] =
        two.exchanges .default 4 [[',', '>', '>', '.']] ∧
      one.exchanges .default 4 [[',', '>', '>', '.']] =
        exchanges .default 4 ⟨.blank ⟨2, 256⟩, false, .queue [.text ['B']]⟩
          [[',', '>', '>', '.']] := by
  have faulted : execute { fuel := 4 } [',', '>', '>'] (.blank ⟨2, 256⟩)
      (.queue [.text ['A'], .text ['B']]) =
        some ⟨.error (.located 3 (.outOfBounds 1 .right)), ⟨#[65, 0], 1, 256⟩,
          .queue [.text ['B']], #[]⟩ := by
    cbv
  have held : execute { fuel := 4, rails := true } [',', '>', '>'] (.blank ⟨2, 256⟩)
      (.queue [.text ['C'], .text ['B']]) =
        some ⟨.ok ⟨0, 3⟩, ⟨#[67, 0], 1, 256⟩, .queue [.text ['B']], #[]⟩ := by
    cbv
  have configured : Tape.ofConfig ⟨2, 256⟩ = .ok (.blank ⟨2, 256⟩) := rfl
  have left : after? .default 4 ⟨.blank ⟨2, 256⟩, false, .queue [.text ['A'], .text ['B']]⟩
      [[',', '>', '>'], ":reset".toList] =
        some ⟨.blank ⟨2, 256⟩, false, .queue [.text ['B']]⟩ := by
    rw [after?_program rfl faulted, after?_command rfl]
    rfl
  have left' : after? .default 4 ⟨.blank ⟨2, 256⟩, true, .queue [.text ['C'], .text ['B']]⟩
      [[',', '>', '>'], ":rails".toList, " :reset all\n".toList] =
        some ⟨.blank ⟨2, 256⟩, false, .queue [.text ['B']]⟩ := by
    rw [after?_program rfl held, after?_command rfl, after?_command rfl]
    rfl
  have first : ResetFrom ⟨2, 256⟩ false ⟨.blank ⟨2, 256⟩, false, .queue [.text ['B']]⟩ :=
    ⟨_, _, _, _, [[',', '>', '>']], ":reset".toList, configured, rfl, left⟩
  have second : ResetFrom ⟨2, 256⟩ true ⟨.blank ⟨2, 256⟩, false, .queue [.text ['B']]⟩ :=
    ⟨_, _, _, _, [[',', '>', '>'], ":rails".toList], " :reset all\n".toList, configured, rfl, left'⟩
  obtain ⟨pair, fresh⟩ := reset_isolates_runs first second
  exact ⟨_, _, left, left', (pair rfl rfl .default 4 _).1, (fresh rfl _ configured .default 4 _).1⟩

end TapeMachine.Session
