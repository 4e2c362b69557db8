import TapeMachine.Proofs.Block.Refinement
import TapeMachine.Proofs.Execution.OpenLoops
import TapeMachine.Proofs.Source.Stripped

/-
Blocks that only act on the tape. Such a block leads from one tape to another in a number of steps,
wherever it stands, and leaves input and output alone; one behind the other they lead from the first
tape to the last. A program comes to what its block means.
-/
namespace TapeMachine

open Source

def Outcome.silent (steps : Nat) (tape : Tape) (input : Input) : Outcome :=
  { result := .ok ⟨0, steps⟩, tape, input, output := #[] }

def Outcome.stuck (position : Nat) (cause : Cause) (tape : Tape) (input : Input) : Outcome :=
  { result := .error (.located position cause), tape, input, output := #[] }

def Ending.outcome (e : Ending) : Outcome := Halt.outcome ⟨e.store.place 0 [], e.fault?⟩

structure Tape.Takes (rails : Bool) (i : Instruction) (before after : Tape) : Prop where
  allowed : rails = true ∨ before.refusal? i = none
  apply_eq : before.apply i = after

namespace Store

variable {s : Store} {rails : Bool} {i : Instruction} {position : Nat}

theorem single_of_takes {tape : Tape} (kind : i.actsOnTape = true)
    (takes : Tape.Takes rails i s.tape tape) :
    s.single rails i.toChar position = ⟨{ s with tape }.tick, none⟩ := by
  obtain ⟨allowed, rfl⟩ := takes
  have carried : State.Carries rails (s.place position []) i.toChar _ := .act kind allowed
  rw [single, carried.perform_eq]
  rfl

theorem single_of_refusal {cause : Cause} (refused : s.tape.refusal? i = some cause) :
    s.single false i.toChar position = ⟨s, some (.located (position + 1) cause)⟩ := by
  have refuses : State.Refuses false (s.place position []) i.toChar _ := .act rfl refused
  rw [single, refuses.perform_eq]
  rfl

end Store

namespace Block

variable {rails : Bool} {i : Instruction} {position n : Nat} {s : Store} {e : Ending}
  {along : Nat → Tape}

def repeated (i : Instruction) (kind : i.actsOnTape = true) (n : Nat) (rest : Block) : Block :=
  match n with
  | 0 => rest
  | n + 1 => .single i.toChar (Instruction.plain_of_actsOnTape kind) (repeated i kind n rest)

theorem text_repeated (kind : i.actsOnTape = true) (n : Nat) (rest : Block) :
    (repeated i kind n rest).text = List.replicate n i.toChar ++ rest.text := by
  induction n with
  | zero => rfl
  | succ n ih => simp [repeated, text, ih, List.replicate_succ]

theorem means_act {tape : Tape} {plain : i.toChar ≠ '[' ∧ i.toChar ≠ ']'} {rest : Block}
    (kind : i.actsOnTape = true) (takes : Tape.Takes rails i s.tape tape)
    (means : Means rails rest (position + 1) (Store.tick { s with tape }) e) :
    Means rails (.single i.toChar plain rest) position s e := by
  refine means_single_iff.mpr (.inl ?_)
  rw [Store.single_of_takes kind takes]
  exact ⟨rfl, means⟩

theorem means_repeated (kind : i.actsOnTape = true)
    (takes : ∀ k < n, Tape.Takes rails i (along k) (along (k + 1))) (start : s.tape = along 0)
    {rest : Block}
    (means : Means rails rest (position + n) { s with tape := along n, steps := s.steps + n } e) :
    Means rails (repeated i kind n rest) position s e := by
  induction n generalizing along position s with
  | zero =>
    rw [← start] at means
    exact means
  | succ n ih =>
    have first := takes 0 (Nat.succ_pos n)
    rw [← start] at first
    refine means_act kind first (ih (fun k less => takes (k + 1) (Nat.succ_lt_succ less)) rfl ?_)
    have steps : s.steps + 1 + n = s.steps + (n + 1) := by omega
    have further : position + 1 + n = position + (n + 1) := by omega
    rw [further]
    simpa only [Store.tick, steps] using means

theorem accepted (b : Block) (plain : ∀ c ∈ b.text, isPlain c = true) :
    sanitize b.text = .ok b.text :=
  sanitize_plain plain (wellNested_text b).closed_eq.symm

theorem Means.ends {b : Block} {tape : Tape} {input : Input}
    (means : Means rails b 0 (.start tape input) e) (plain : ∀ c ∈ b.text, isPlain c = true) :
    Ends rails {} b.text tape input e.outcome := by
  have here : b.text <+: b.text.drop 0 := List.prefix_rfl
  have leads := b.leads here means []
  rw [Nat.zero_add] at leads
  obtain ⟨halt, halts, rfl⟩ := leads.halts
  exact (ends_iff_halts (accepted b plain)).mpr ⟨halt, halts, rfl⟩

/-- The block gets from one tape to the other in so many steps, from any position and after any
output. -/
def Maps (rails : Bool) (b : Block) (n : Nat) (before after : Tape) : Prop :=
  ∀ position s, s.tape = before →
    Means rails b position s ⟨{ s with tape := after, steps := s.steps + n }, none⟩

theorem maps_done (rails : Bool) (tape : Tape) : Maps rails .done 0 tape tape := by
  rintro position s rfl
  exact means_done_iff.mpr rfl

theorem Maps.act {before after : Tape} {rest : Block} {plain : i.toChar ≠ '[' ∧ i.toChar ≠ ']'}
    (maps : Maps rails rest n (before.apply i) after) (kind : i.actsOnTape = true)
    (allowed : before.refusal? i = none) :
    Maps rails (.single i.toChar plain rest) (n + 1) before after := by
  rintro position s rfl
  refine means_act kind ⟨.inr allowed, rfl⟩ ?_
  have steps : s.steps + 1 + n = s.steps + (n + 1) := by omega
  have later := maps (position + 1) (Store.tick { s with tape := s.tape.apply i }) rfl
  simpa only [Store.tick, steps] using later

theorem Maps.repeated {m : Nat} {rest : Block} {after : Tape}
    (maps : Maps rails rest m (along n) after) (kind : i.actsOnTape = true)
    (takes : ∀ k < n, Tape.Takes rails i (along k) (along (k + 1))) :
    Maps rails (.repeated i kind n rest) (n + m) (along 0) after := by
  intro position s start
  refine means_repeated kind takes start ?_
  rw [← Nat.add_assoc]
  exact maps (position + n) { s with tape := along n, steps := s.steps + n } rfl

theorem Maps.ends {b : Block} {tape after : Tape} (maps : Maps rails b n tape after)
    (plain : ∀ c ∈ b.text, isPlain c = true) (input : Input) :
    Ends rails {} b.text tape input (.silent n after input) := by
  have means := maps 0 (.start tape input) rfl
  rw [Store.start, Nat.zero_add] at means
  exact means.ends plain

end Block

end TapeMachine
