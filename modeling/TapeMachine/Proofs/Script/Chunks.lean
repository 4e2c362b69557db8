import TapeMachine.Proofs.Session.Submission

/-
The chunks of a script. A command line ends the program before it and is a chunk by itself; program
lines in succession are one program, unless they are blank. A session takes each chunk for what the
script was cut for: it obeys the command lines, all of them and in order, and runs everything else.
-/
namespace TapeMachine.Script

open Text

variable {chunk line : List Char} {ls pending before : List (List Char)}

inductive ChunkOf (ls : List (List Char)) : List Char → Prop
  | command {line : List Char} (member : line ∈ ls) (command : isCommandLine line = true) :
      ChunkOf ls (trim line)
  | program {code : List (List Char)} (part : code <:+: ls)
      (plain : ∀ line ∈ code, isCommandLine line = false)
      (visible : (unlines code).all isBlank = false) : ChunkOf ls (unlines code)

theorem ChunkOf.mono {more : List (List Char)} (cut : ChunkOf ls chunk) (part : ls <:+: more) :
    ChunkOf more chunk := by
  cases cut with
  | command member command => exact .command (part.subset member) command
  | program inside plain visible => exact .program (inside.trans part) plain visible

theorem mem_program_iff :
    chunk ∈ program pending ↔
      chunk = unlines pending.reverse ∧ chunk.all isBlank = false := by
  unfold program
  simp only
  split
  · rename_i blank
    simp only [List.not_mem_nil, false_iff, not_and, Bool.not_eq_false]
    intro same
    rw [same, blank]
  · rename_i visible
    simp only [List.mem_singleton, iff_self_and]
    intro same
    rw [same, Bool.eq_false_iff]
    exact visible

theorem chunksAfter_command (command : isCommandLine line = true)
    (pending rest : List (List Char)) :
    chunksAfter pending (line :: rest) = program pending ++ trim line :: chunksAfter [] rest := by
  rw [chunksAfter, if_pos command]

theorem chunksAfter_plain (plain : isCommandLine line = false) (pending rest : List (List Char)) :
    chunksAfter pending (line :: rest) = chunksAfter (line :: pending) rest := by
  rw [chunksAfter, if_neg (Bool.eq_false_iff.mp plain)]

/-- What comes before a command line is cut as if nothing came after it, and the other way round. -/
theorem chunksAfter_append (command : isCommandLine line = true)
    (pending before rest : List (List Char)) :
    chunksAfter pending (before ++ line :: rest) =
      chunksAfter pending before ++ trim line :: chunksAfter [] rest := by
  induction before generalizing pending with
  | nil => exact chunksAfter_command command pending rest
  | cons first before ih =>
    rw [List.cons_append]
    cases kind : isCommandLine first with
    | true =>
      rw [chunksAfter_command kind, chunksAfter_command kind, ih, List.append_assoc,
        List.cons_append]
    | false => rw [chunksAfter_plain kind, chunksAfter_plain kind, ih]

theorem chunksAfter_of_plain (plain : ∀ line ∈ ls, isCommandLine line = false)
    (pending : List (List Char)) : chunksAfter pending ls = program (ls.reverse ++ pending) := by
  induction ls generalizing pending with
  | nil => rfl
  | cons line ls ih =>
    have later := ih fun line member => plain line (List.mem_cons_of_mem _ member)
    rw [chunksAfter_plain (plain line List.mem_cons_self), later]
    simp

theorem chunkOf_program (plain : ∀ line ∈ pending, isCommandLine line = false)
    (member : chunk ∈ program pending) : ChunkOf pending.reverse chunk := by
  obtain ⟨same, visible⟩ := mem_program_iff.mp member
  subst same
  refine .program List.infix_rfl ?_ visible
  intro line inside
  exact plain line (List.mem_reverse.mp inside)

theorem chunkOf_of_mem (pending : List (List Char))
    (plain : ∀ line ∈ pending, isCommandLine line = false)
    (member : chunk ∈ chunksAfter pending ls) : ChunkOf (pending.reverse ++ ls) chunk := by
  induction ls generalizing pending with
  | nil => exact (chunkOf_program plain member).mono (List.prefix_append _ _).isInfix
  | cons line ls ih =>
    cases kind : isCommandLine line with
    | true =>
      rw [chunksAfter_command kind, List.mem_append, List.mem_cons] at member
      rcases member with earlier | same | later
      · exact (chunkOf_program plain earlier).mono (List.prefix_append _ _).isInfix
      · rw [same]
        exact .command (List.mem_append_right _ List.mem_cons_self) kind
      · refine (ih [] (by simp) later).mono ?_
        exact ⟨pending.reverse ++ [line], [], by simp⟩
    | false =>
      rw [chunksAfter_plain kind] at member
      have both : ∀ other ∈ line :: pending, isCommandLine other = false := by
        simpa [kind] using plain
      simpa using ih _ both member

theorem filter_program (plain : ∀ line ∈ pending, isCommandLine line = false) :
    (program pending).filter isCommandLine = [] := by
  refine List.filter_eq_nil_iff.mpr ?_
  intro chunk member
  obtain ⟨same, _⟩ := mem_program_iff.mp member
  have reversed : ∀ line ∈ pending.reverse, isCommandLine line = false := by
    intro line inside
    exact plain line (List.mem_reverse.mp inside)
  rw [same, isCommandLine_unlines reversed]
  exact Bool.false_ne_true

theorem filter_chunksAfter (plain : ∀ line ∈ pending, isCommandLine line = false) :
    (chunksAfter pending ls).filter isCommandLine = (ls.filter isCommandLine).map trim := by
  induction ls generalizing pending with
  | nil => exact filter_program plain
  | cons line ls ih =>
    cases kind : isCommandLine line with
    | true =>
      rw [chunksAfter_command kind, List.filter_append, filter_program plain, List.filter_cons,
        isCommandLine_trim, List.filter_cons, if_pos kind, if_pos kind, ih (by simp)]
      rfl
    | false =>
      have both : ∀ other ∈ line :: pending, isCommandLine other = false := by
        simpa [kind] using plain
      rw [chunksAfter_plain kind, ih both, List.filter_cons, if_neg (Bool.eq_false_iff.mp kind)]

/-- One line that a session obeys, or reports as malformed, and never runs. -/
structure IsCommand (chunk : List Char) : Prop where
  colon : chunk.head? = some ':'
  oneLine : '\n' ∉ chunk
  obeyed : ∃ read, Command.ofText? chunk = some read ∧
    ∀ palette fuel s, Session.submit palette fuel s chunk = some (Session.answer palette s read)

/-- Lines none of which is a command, and which a session runs as one program. -/
structure IsProgram (chunk : List Char) : Prop where
  plain : ∀ line ∈ lines chunk, isCommandLine line = false
  unread : Command.ofText? chunk = none
  run : ∀ palette fuel s,
    Session.submit palette fuel s chunk = Session.runProgram palette fuel s chunk

theorem isCommand_trim (oneLine : '\n' ∉ line) (command : isCommandLine line = true) :
    IsCommand (trim line) where
  colon := by
    rw [head?_trim]
    exact isCommandLine_iff.mp command
  oneLine feed := oneLine ((trim_sublist line).subset feed)
  obeyed := by
    obtain ⟨read, found⟩ := Command.exists_ofText?_iff.mpr command
    rw [← Command.ofText?_trim] at found
    exact ⟨read, found, fun palette fuel s => Session.submit_command found⟩

theorem isProgram_unlines {code : List (List Char)} (broken : ∀ line ∈ code, '\n' ∉ line)
    (plain : ∀ line ∈ code, isCommandLine line = false)
    (visible : (unlines code).all isBlank = false) : IsProgram (unlines code) := by
  have whole := isCommandLine_unlines plain
  refine ⟨?plain, Command.ofText?_eq_none_iff.mpr whole, ?run⟩
  case plain =>
    intro line member
    rw [lines_unlines broken, List.mem_map] at member
    obtain ⟨original, inside, same⟩ := member
    rw [← same, isCommandLine_dropReturn]
    exact plain original inside
  case run =>
    intro palette fuel s
    exact Session.submit_program (Submission.ofText_eq_program_iff.mpr ⟨visible, whole⟩)

/-- A script is cut as a session takes its chunks, and its commands are its command lines. -/
theorem chunks_taken_as_cut (script : List Char) :
    (∀ chunk ∈ chunks script, chunk.all isBlank = false ∧ (IsCommand chunk ∨ IsProgram chunk)) ∧
      (chunks script).filter isCommandLine = ((lines script).filter isCommandLine).map trim := by
  constructor
  · intro chunk member
    cases chunkOf_of_mem [] (by simp) member with
    | command inside command =>
      refine ⟨?_, .inl (isCommand_trim (newline_not_mem_of_mem_lines inside) command)⟩
      rw [← isCommandLine_trim] at command
      exact not_blank_of_isCommandLine command
    | program part plain visible =>
      refine ⟨visible, .inr (isProgram_unlines ?_ plain visible)⟩
      intro line inside
      exact newline_not_mem_of_mem_lines (part.subset inside)
  · exact filter_chunksAfter (by simp)

/-- A command behind a vertical tab, and a program with a colon behind a carriage return that ends
no line. -/
theorem chunks_taken_with_stray_return :
    chunks "\n \x0b:dump 2\r\n+\r:x\n".toList = [":dump 2".toList, "+\r:x\n".toList] ∧
      IsCommand ":dump 2".toList ∧ IsProgram "+\r:x\n".toList := by
  have cut : chunks "\n \x0b:dump 2\r\n+\r:x\n".toList =
      [":dump 2".toList, "+\r:x\n".toList] := by decide
  have taken := (chunks_taken_as_cut "\n \x0b:dump 2\r\n+\r:x\n".toList).1
  rw [cut] at taken
  refine ⟨cut, ?command, ?program⟩
  case command =>
    rcases (taken ":dump 2".toList (by simp)).2 with command | program
    · exact command
    · cases program.unread
  case program =>
    rcases (taken "+\r:x\n".toList (by simp)).2 with command | program
    · cases command.colon
    · exact program

end TapeMachine.Script
