import TapeMachine.Proofs.Block.Meaning
import TapeMachine.Proofs.Execution.Turns

/-
The machine refines the structured meaning. While it is inside the text of a block, the machine
with its cursor and stack of loops goes wherever the block leads, and takes the same steps; and
whenever a run from there stops, the block has a meaning. So a run of well nested code stops in some
way exactly if its tree comes to that.
-/
namespace TapeMachine

open Source State

variable {code : List Char} {rails : Bool} {position : Nat} {s : Store} {loops : List Nat}
  {c : Char} {t : State} {halt : Halt} {e : Ending}

theorem char_of_front {cs : List Char} (here : c :: cs <+: code.drop position) :
    code[position]? = some c ∧ cs <+: code.drop (position + 1) := by
  obtain ⟨later, same⟩ := here
  constructor
  · have first := congrArg List.head? same
    simpa [List.head?_drop] using first.symm
  · refine ⟨later, ?_⟩
    rw [← List.drop_drop, ← same]
    rfl

theorem fronts_of_append {a b : List Char} (here : a ++ b <+: code.drop position) :
    a <+: code.drop position ∧ b <+: code.drop (position + a.length) := by
  obtain ⟨later, same⟩ := here
  rw [List.append_assoc] at same
  constructor
  · exact ⟨b ++ later, same⟩
  · refine ⟨later, ?_⟩
    rw [← List.drop_drop, ← same, List.drop_left]

theorem fronts_of_loop {body rest : Block}
    (here : (Block.loop body rest).text <+: code.drop position) :
    code[position]? = some '[' ∧ body.text <+: code.drop (position + 1) ∧
      code[position + 1 + body.text.length]? = some ']' ∧
      rest.text <+: code.drop (position + body.text.length + 2) := by
  obtain ⟨opening, inside⟩ := char_of_front here
  obtain ⟨within, after⟩ := fronts_of_append inside
  obtain ⟨closing, later⟩ := char_of_front after
  refine ⟨opening, within, closing, ?_⟩
  have beyond : position + 1 + body.text.length + 1 = position + body.text.length + 2 := by omega
  rw [← beyond]
  exact later

theorem end_of_single {plain : c ≠ '[' ∧ c ≠ ']'} (rest : Block) :
    position + (Block.single c plain rest).text.length = position + 1 + rest.text.length := by
  simp only [Block.text, List.length_cons]
  omega

theorem end_of_loop (body rest : Block) :
    position + (Block.loop body rest).text.length =
      position + body.text.length + 2 + rest.text.length := by
  simp only [Block.text, List.length_cons, List.length_append]
  omega

theorem carries_in_loops (plain : c ≠ '[' ∧ c ≠ ']')
    (carried : Carries rails (s.place position []) c t) :
    Carries rails (s.place position loops) c (t.store.place (position + 1) loops) := by
  cases carried with
  | act kind allowed => exact .act (s := s.place position loops) kind allowed
  | print printable => exact .print (s := s.place position loops) printable
  | read accepted => exact .read (s := s.place position loops) accepted
  | enter => exact absurd rfl plain.1
  | leave | again => exact absurd rfl plain.2

theorem refuses_in_loops (plain : c ≠ '[' ∧ c ≠ ']')
    (refused : Refuses rails (s.place position []) c halt) (loops : List Nat) :
    ∃ other, Refuses rails (s.place position loops) c other ∧ other.ending = halt.ending := by
  cases refused with
  | act strict refused => exact ⟨_, .act (s := s.place position loops) strict refused, rfl⟩
  | print unprintable => exact ⟨_, .print (s := s.place position loops) unprintable, rfl⟩
  | read rejected => exact ⟨_, .read (s := s.place position loops) rejected, rfl⟩
  | unknown unknown => exact ⟨_, .unknown (s := s.place position loops) unknown, rfl⟩
  | stray => exact absurd rfl plain.2

theorem turn_single (plain : c ≠ '[' ∧ c ≠ ']') (found : code[position]? = some c)
    (loops : List Nat) :
    ((s.single rails c position).fault? = none ∧
      (s.place position loops).turn code.toArray rails {} =
        .next ((s.single rails c position).store.place (position + 1) loops)) ∨
    ((s.single rails c position).fault? ≠ none ∧
      ∃ halt, (s.place position loops).turn code.toArray rails {} = .stop halt ∧
        halt.ending = s.single rails c position) := by
  rcases carries_or_refuses rails (s.place position []) c with ⟨t, carried⟩ | ⟨halt, refused⟩
  · have single : s.single rails c position = ⟨t.store, none⟩ := by
      simp only [Store.single, carried.perform_eq]
    rw [single]
    exact .inl ⟨rfl, (carries_in_loops plain carried).turn_eq found⟩
  · have single : s.single rails c position = halt.ending := by
      simp only [Store.single, refused.perform_eq]
    obtain ⟨_, cause, fault⟩ := refused.located
    obtain ⟨other, refused, same⟩ := refuses_in_loops plain refused loops
    rw [single]
    refine .inr ⟨?_, other, refused.turn_eq found, same⟩
    simp [Halt.ending, fault]

theorem turn_opening (found : code[position]? = some '[') :
    (s.place position loops).turn code.toArray rails {} =
      .next (s.tick.place (position + 1) (position :: loops)) :=
  Carries.enter.turn_eq found

theorem turn_closing_zero {opening : Nat} (found : code[position]? = some ']')
    (zero : s.tape.cell = 0) :
    (s.place position (opening :: loops)).turn code.toArray rails {} =
      .next (s.tick.place (position + 1) loops) :=
  (Carries.leave rfl zero).turn_eq found

theorem turn_closing_nonzero {opening : Nat} (found : code[position]? = some ']')
    (nonzero : s.tape.cell ≠ 0) :
    (s.place position (opening :: loops)).turn code.toArray rails {} =
      .next (s.tick.place (opening + 1) (opening :: loops)) :=
  (Carries.again rfl nonzero).turn_eq found

/-- The machine gets from a state to the end of a block, or stops as the block does. -/
def Leads (code : List Char) (rails : Bool) (s : State) (e : Ending) (goal : Nat)
    (loops : List Nat) : Prop :=
  (e.fault? = none ∧
    ∃ n, after? code.toArray rails {} n s = some (e.store.place goal loops)) ∨
  (e.fault? ≠ none ∧ ∃ halt, Halts code.toArray rails {} s halt ∧ halt.ending = e)

theorem Leads.of_after {s t : State} {n goal : Nat}
    (reached : after? code.toArray rails {} n s = some t)
    (leads : Leads code rails t e goal loops) :
    Leads code rails s e goal loops := by
  rcases leads with ⟨through, m, later⟩ | ⟨stuck, halt, halts, same⟩
  · exact .inl ⟨through, n + m, after?_trans reached later⟩
  · exact .inr ⟨stuck, halt, (halts_of_after reached).mpr halts, same⟩

theorem Leads.of_next {s t : State} {goal : Nat}
    (next : s.turn code.toArray rails {} = .next t) (leads : Leads code rails t e goal loops) :
    Leads code rails s e goal loops :=
  leads.of_after (after?_one_iff.mpr next)

theorem Leads.then {s : State} {last : Ending} {middle goal : Nat} {inner : List Nat}
    {next : Store → Ending → Prop} (leads : Leads code rails s e middle inner)
    (follows : e.Then next last)
    (later : ∀ r, next e.store r → Leads code rails (e.store.place middle inner) r goal loops) :
    Leads code rails s last goal loops := by
  rcases follows with ⟨through, goes⟩ | ⟨stuck, rfl⟩
  · rcases leads with ⟨_, n, reached⟩ | ⟨stuck, _⟩
    · exact (later last goes).of_after reached
    · exact absurd through stuck
  · rcases leads with ⟨through, _⟩ | stops
    · exact absurd through stuck
    · exact .inr stops

namespace Block

theorem leads_of_doWhile {body : Block} {opening fuel pass : Nat}
    (inside : ∀ s e, Means rails body (opening + 1) s e → Leads code rails
      (s.place (opening + 1) (opening :: loops)) e (opening + 1 + body.text.length)
      (opening :: loops))
    (closing : code[opening + 1 + body.text.length]? = some ']')
    (ran : doWhile (body.eval rails fuel (opening + 1)) pass s = some e) :
    Leads code rails (s.place (opening + 1) (opening :: loops)) e
      (opening + body.text.length + 2) loops := by
  have goal : opening + 1 + body.text.length + 1 = opening + body.text.length + 2 := by omega
  induction pass generalizing s e with
  | zero => cases ran
  | succ pass ih =>
    obtain ⟨first, once, follows⟩ := doWhile_succ_iff.mp ran
    refine (inside s first ⟨fuel, once⟩).then follows ?_
    rintro r (⟨zero, rfl⟩ | ⟨nonzero, again⟩)
    · refine .of_next (turn_closing_zero closing zero) (.inl ⟨rfl, 0, ?_⟩)
      rw [goal]
      rfl
    · exact .of_next (turn_closing_nonzero closing nonzero) (ih again)

/-- The machine goes where the block does. The induction is on the block, for any loops around. -/
theorem leads (b : Block) {position : Nat} {s : Store} {e : Ending}
    (here : b.text <+: code.drop position) (means : Means rails b position s e)
    (loops : List Nat) :
    Leads code rails (s.place position loops) e (position + b.text.length) loops := by
  induction b generalizing position s e loops with
  | done =>
    obtain rfl := means_done_iff.mp means
    exact .inl ⟨rfl, 0, rfl⟩
  | single c plain rest ih =>
    obtain ⟨found, later⟩ := char_of_front here
    rw [end_of_single]
    rcases means_single_iff.mp means with ⟨through, goes⟩ | ⟨stuck, rfl⟩
    · rcases turn_single plain found loops with ⟨_, next⟩ | ⟨stuck, _⟩
      · exact .of_next next (ih later goes loops)
      · exact absurd through stuck
    · rcases turn_single plain found loops with ⟨through, _⟩ | ⟨_, halt, stop, same⟩
      · exact absurd through stuck
      · exact .inr ⟨stuck, halt, halts_of_stop stop, same⟩
  | loop body rest ihBody ihRest =>
    obtain ⟨found, within, closing, later⟩ := fronts_of_loop here
    rw [end_of_loop]
    obtain ⟨first, ⟨fuel, ran⟩, follows⟩ := means_loop_iff.mp means
    refine .of_next (turn_opening found) (.then (leads_of_doWhile ?_ closing ran) follows ?_)
    · intro s e means
      exact ihBody within means (position :: loops)
    · intro r goes
      exact ihRest later goes loops

theorem repeats_of_run {body : Block} {opening fuel : Nat}
    (inside : ∀ s less, run code.toArray rails {} less
        (s.place (opening + 1) (opening :: loops)) = some halt →
      ∃ e, Means rails body (opening + 1) s e ∧ (e.fault? = none → ∃ rest, rest ≤ less ∧
        run code.toArray rails {} rest
          (e.store.place (opening + 1 + body.text.length) (opening :: loops)) = some halt))
    (closing : code[opening + 1 + body.text.length]? = some ']')
    (ran : run code.toArray rails {} fuel (s.place (opening + 1) (opening :: loops)) = some halt) :
    ∃ e, Repeats rails body (opening + 1) s e ∧ (e.fault? = none → ∃ rest, rest ≤ fuel ∧
      run code.toArray rails {} rest (e.store.place (opening + body.text.length + 2) loops) =
        some halt) := by
  have goal : opening + 1 + body.text.length + 1 = opening + body.text.length + 2 := by omega
  -- Every pass uses up some of the turns that are left.
  induction fuel using Nat.strongRecOn generalizing s with
  | ind fuel ih =>
    obtain ⟨first, means, more⟩ := inside s fuel ran
    cases stuck : first.fault? with
    | some fault =>
      refine ⟨first, repeats_iff.mpr ⟨first, means, .inr ⟨by simp [stuck], rfl⟩⟩, ?_⟩
      simp [stuck]
    | none =>
      obtain ⟨rest, bound, later⟩ := more stuck
      by_cases zero : first.store.tape.cell = 0
      · obtain ⟨less, smaller, out⟩ := exists_run_of_next later (turn_closing_zero closing zero)
        refine ⟨⟨first.store.tick, none⟩,
          repeats_iff.mpr ⟨first, means, .inl ⟨stuck, .inl ⟨zero, rfl⟩⟩⟩, ?_⟩
        intro _
        rw [goal] at out
        exact ⟨less, by omega, out⟩
      · obtain ⟨less, smaller, back⟩ := exists_run_of_next later (turn_closing_nonzero closing zero)
        obtain ⟨e, again, out⟩ := ih less (by omega) back
        refine ⟨e, repeats_iff.mpr ⟨first, means, .inl ⟨stuck, .inr ⟨zero, again⟩⟩⟩, ?_⟩
        intro through
        obtain ⟨left, below, beyond⟩ := out through
        exact ⟨left, by omega, beyond⟩

/-- Wherever a run that is in a block stops, the block means something. -/
theorem means_of_run (b : Block) {position fuel : Nat} {s : Store} {loops : List Nat}
    (here : b.text <+: code.drop position)
    (ran : run code.toArray rails {} fuel (s.place position loops) = some halt) :
    ∃ e, Means rails b position s e ∧ (e.fault? = none → ∃ rest, rest ≤ fuel ∧
      run code.toArray rails {} rest (e.store.place (position + b.text.length) loops) =
        some halt) := by
  induction b generalizing position fuel s loops with
  | done => exact ⟨⟨s, none⟩, means_done_iff.mpr rfl, fun _ => ⟨fuel, Nat.le_refl fuel, ran⟩⟩
  | single c plain rest ih =>
    obtain ⟨found, later⟩ := char_of_front here
    rcases turn_single plain found loops with ⟨through, next⟩ | ⟨stuck, _⟩
    · obtain ⟨less, smaller, on⟩ := exists_run_of_next ran next
      obtain ⟨e, means, more⟩ := ih later on
      refine ⟨e, means_single_iff.mpr (.inl ⟨through, means⟩), ?_⟩
      intro ended
      obtain ⟨left, bound, out⟩ := more ended
      rw [end_of_single]
      exact ⟨left, by omega, out⟩
    · exact ⟨_, means_single_iff.mpr (.inr ⟨stuck, rfl⟩), fun through => absurd through stuck⟩
  | loop body rest ihBody ihRest =>
    obtain ⟨found, within, closing, later⟩ := fronts_of_loop here
    obtain ⟨less, smaller, entered⟩ := exists_run_of_next ran (turn_opening found)
    obtain ⟨first, repeated, more⟩ :=
      repeats_of_run (fun s n ran => ihBody within ran) closing entered
    cases stuck : first.fault? with
    | some fault =>
      refine ⟨first, means_loop_iff.mpr ⟨first, repeated, .inr ⟨by simp [stuck], rfl⟩⟩, ?_⟩
      simp [stuck]
    | none =>
      obtain ⟨left, bound, on⟩ := more stuck
      obtain ⟨e, means, out⟩ := ihRest later on
      refine ⟨e, means_loop_iff.mpr ⟨first, repeated, .inl ⟨stuck, means⟩⟩, ?_⟩
      intro ended
      obtain ⟨last, below, done⟩ := out ended
      rw [end_of_loop]
      exact ⟨last, by omega, done⟩

end Block

theorem Leads.halts {s : State} (leads : Leads code rails s e code.length []) :
    ∃ halt, Halts code.toArray rails {} s halt ∧ halt.ending = e := by
  rcases leads with ⟨through, n, reached⟩ | ⟨_, stops⟩
  · have finished : code.toArray[(e.store.place code.length []).cursor]? = none := by
      simp [Store.place]
    have ended : Stops code.toArray rails {} (e.store.place code.length []) _ := .ended finished
    have stop := turn_eq_stop_iff.mpr ended
    refine ⟨_, (halts_of_after reached).mpr (halts_of_stop stop), ?_⟩
    cases e
    cases through
    rfl
  · exact stops

/-- Well nested code has a tree, and its run stops in some way exactly if the tree comes to that:
with the same fault or none, tape, rest of the input, output and number of steps. -/
theorem run_iff_tree_means (nested : WellNested code) (rails : Bool) (tape : Tape)
    (input : Input) :
    ∃ tree, Block.read? code = some tree ∧ tree.text = code ∧
      ∀ e, (∃ halt, Halts code.toArray rails {} (.start tape input) halt ∧ halt.ending = e) ↔
        tree.Means rails 0 (.start tape input) e := by
  obtain ⟨tree, read⟩ := Block.exists_read?_iff.mpr nested
  have same := Block.read?_eq_some_iff.mp read
  have here : tree.text <+: code.drop 0 := by
    simp only [same, List.drop_zero, List.prefix_refl]
  have stops {e : Ending} (means : tree.Means rails 0 (.start tape input) e) :
      ∃ halt, Halts code.toArray rails {} (.start tape input) halt ∧ halt.ending = e := by
    have leads := tree.leads here means []
    rw [Nat.zero_add, same] at leads
    exact leads.halts
  refine ⟨tree, read, same, fun e => ⟨?_, stops⟩⟩
  intro stopped
  obtain ⟨halt, halts, rfl⟩ := stopped
  obtain ⟨fuel, ran⟩ := halts
  have inside : run code.toArray rails {} fuel ((Store.start tape input).place 0 []) = some halt :=
    ran
  obtain ⟨e, means, _⟩ := tree.means_of_run here inside
  obtain ⟨other, halts, rfl⟩ := stops means
  obtain rfl := Halts.unique ⟨fuel, ran⟩ halts
  exact means

/-- A fault behind an inner loop and inside an outer one. -/
theorem tree_means_fault_in_loop :
    ∃ tree e, Block.read? ['+', '[', '[', '-', ']', '<', ']'] = some tree ∧
      tree.Means false 0 (.start (Tape.blank ⟨2, 256⟩) (.queue [])) e ∧
      e.fault? = some (.located 6 (.outOfBounds 0 .left)) ∧ e.store.steps = 5 := by
  have nested : WellNested ['+', '[', '[', '-', ']', '<', ']'] := wellNested_iff_depth.mpr rfl
  obtain ⟨tree, read, _, agree⟩ :=
    run_iff_tree_means nested false (Tape.blank ⟨2, 256⟩) (.queue [])
  have halts : Halts #['+', '[', '[', '-', ']', '<', ']'] false {}
      (.start (Tape.blank ⟨2, 256⟩) (.queue [])) _ := ⟨6, rfl⟩
  exact ⟨tree, _, read, (agree _).mp ⟨_, halts, rfl⟩, rfl, rfl⟩

end TapeMachine
