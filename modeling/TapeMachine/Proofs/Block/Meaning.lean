import TapeMachine.Execution
import TapeMachine.Proofs.Block.Tree

/-
The structured meaning of code, on its tree and without a cursor or a stack: single characters in
sequence, and loops that run their body once and then again while the cell is not zero. Fuel bounds
the passes of each loop; the meaning of a block is what it evaluates to with any fuel, and the
equations of this meaning no longer mention fuel.
-/
namespace TapeMachine

/-- What a program acts on, wherever it stands in its code. -/
structure Store where
  tape : Tape
  input : Input
  output : Array Char
  steps : Nat

namespace Store

def start (tape : Tape) (input : Input) : Store := { tape, input, output := #[], steps := 0 }

def tick (s : Store) : Store := { s with steps := s.steps + 1 }

def place (s : Store) (cursor : Nat) (loops : List Nat) : State :=
  { cursor, loops, tape := s.tape, input := s.input, output := s.output, steps := s.steps }

end Store

def State.store (s : State) : Store :=
  { tape := s.tape, input := s.input, output := s.output, steps := s.steps }

structure Ending where
  store : Store
  fault? : Option Fault

def Halt.ending (halt : Halt) : Ending := ⟨halt.state.store, halt.fault?⟩

def Ending.andThen (e : Ending) (next : Store → Option Ending) : Option Ending :=
  match e.fault? with
  | none => next e.store
  | some _ => some e

def Store.single (s : Store) (rails : Bool) (c : Char) (position : Nat) : Ending :=
  match (s.place position []).perform rails c with
  | .next t => ⟨t.store, none⟩
  | .stop halt => halt.ending

namespace Block

/-- Runs the body once, then again while the cell is not zero. Each test is one step. -/
def doWhile (body : Store → Option Ending) : Nat → Store → Option Ending
  | 0, _ => none
  | fuel + 1, s =>
    (body s).bind (·.andThen fun t =>
      if t.tape.cell = 0 then some ⟨t.tick, none⟩ else doWhile body fuel t.tick)

def eval (rails : Bool) (fuel : Nat) : Block → Nat → Store → Option Ending
  | .done, _, s => some ⟨s, none⟩
  | .single c _ rest, position, s =>
    (s.single rails c position).andThen (rest.eval rails fuel (position + 1))
  | .loop body rest, position, s =>
    (doWhile (body.eval rails fuel (position + 1)) fuel s.tick).bind
      (·.andThen (rest.eval rails fuel (position + body.text.length + 2)))

/-- What a block comes to, given fuel enough. -/
def Means (rails : Bool) (b : Block) (position : Nat) (s : Store) (e : Ending) : Prop :=
  ∃ fuel, b.eval rails fuel position s = some e

def Repeats (rails : Bool) (body : Block) (position : Nat) (s : Store) (e : Ending) : Prop :=
  ∃ fuel, doWhile (body.eval rails fuel position) fuel s = some e

end Block

def Ending.Then (e : Ending) (next : Store → Ending → Prop) (last : Ending) : Prop :=
  (e.fault? = none ∧ next e.store last) ∨ (e.fault? ≠ none ∧ last = e)

theorem Ending.andThen_eq_some_iff {e last : Ending} {next : Store → Option Ending} :
    e.andThen next = some last ↔ e.Then (fun t r => next t = some r) last := by
  unfold andThen Then
  cases e.fault? <;> simp [eq_comm]

theorem Ending.Then.imp {e last : Ending} {next later : Store → Ending → Prop}
    (follows : e.Then next last) (implies : ∀ t r, next t r → later t r) : e.Then later last := by
  rcases follows with ⟨through, goes⟩ | ⟨stuck, same⟩
  · exact .inl ⟨through, implies _ _ goes⟩
  · exact .inr ⟨stuck, same⟩

namespace Block

variable {rails : Bool} {position : Nat} {s : Store} {last : Ending}

theorem doWhile_succ_iff {body : Store → Option Ending} {fuel : Nat} :
    doWhile body (fuel + 1) s = some last ↔
      ∃ e, body s = some e ∧ e.Then (fun t r =>
        (t.tape.cell = 0 ∧ r = ⟨t.tick, none⟩) ∨
          (t.tape.cell ≠ 0 ∧ doWhile body fuel t.tick = some r)) last := by
  simp only [doWhile, Option.bind_eq_some_iff, Ending.andThen_eq_some_iff]
  have branches (t : Store) (r : Ending) :
      (if t.tape.cell = 0 then some ⟨t.tick, none⟩ else doWhile body fuel t.tick) = some r ↔
        (t.tape.cell = 0 ∧ r = ⟨t.tick, none⟩) ∨
          (t.tape.cell ≠ 0 ∧ doWhile body fuel t.tick = some r) := by
    by_cases zero : t.tape.cell = 0 <;> simp [zero, eq_comm]
  simp only [branches]

theorem doWhile_mono {body longer : Store → Option Ending} {m n : Nat} (more : m ≤ n)
    (answers : ∀ s e, body s = some e → longer s = some e) (ran : doWhile body m s = some last) :
    doWhile longer n s = some last := by
  induction m generalizing n s last with
  | zero => cases ran
  | succ m ih =>
    obtain ⟨n, rfl⟩ := Nat.exists_eq_add_of_le' (Nat.lt_of_lt_of_le (Nat.succ_pos m) more)
    obtain ⟨e, first, follows⟩ := doWhile_succ_iff.mp ran
    refine doWhile_succ_iff.mpr ⟨e, answers _ _ first, follows.imp ?_⟩
    rintro t r (exits | ⟨nonzero, again⟩)
    · exact .inl exits
    · exact .inr ⟨nonzero, ih (Nat.le_of_succ_le_succ more) again⟩

theorem eval_mono {b : Block} {m n : Nat} (more : m ≤ n)
    (ran : b.eval rails m position s = some last) : b.eval rails n position s = some last := by
  induction b generalizing position s last with
  | done => exact ran
  | single c plain rest ih =>
    have follows := Ending.andThen_eq_some_iff.mp ran
    exact Ending.andThen_eq_some_iff.mpr (follows.imp fun t r goes => ih goes)
  | loop body rest ihBody ihRest =>
    simp only [eval, Option.bind_eq_some_iff, Ending.andThen_eq_some_iff] at ran ⊢
    obtain ⟨e, repeated, follows⟩ := ran
    exact ⟨e, doWhile_mono more (fun s e goes => ihBody goes) repeated,
      follows.imp fun t r goes => ihRest goes⟩

theorem repeated_mono {body : Block} {m n : Nat} (more : m ≤ n)
    (ran : doWhile (body.eval rails m position) m s = some last) :
    doWhile (body.eval rails n position) n s = some last :=
  doWhile_mono more (fun _ _ goes => eval_mono more goes) ran

theorem means_done_iff : Means rails .done position s last ↔ last = ⟨s, none⟩ := by
  simp [Means, eval, eq_comm]

theorem means_single_iff {c : Char} {plain : c ≠ '[' ∧ c ≠ ']'} {rest : Block} :
    Means rails (.single c plain rest) position s last ↔
      (s.single rails c position).Then (Means rails rest (position + 1)) last := by
  unfold Means
  simp only [eval, Ending.andThen_eq_some_iff, Ending.Then]
  simp only [exists_or, exists_and_left, exists_const]

theorem means_loop_iff {body rest : Block} :
    Means rails (.loop body rest) position s last ↔
      ∃ e, Repeats rails body (position + 1) s.tick e ∧
        e.Then (Means rails rest (position + body.text.length + 2)) last := by
  simp only [Means, eval, Option.bind_eq_some_iff, Ending.andThen_eq_some_iff]
  constructor
  · intro means
    obtain ⟨fuel, e, repeated, follows⟩ := means
    exact ⟨e, ⟨fuel, repeated⟩, follows.imp fun t r goes => ⟨fuel, goes⟩⟩
  · intro parts
    obtain ⟨e, ⟨m, repeated⟩, ⟨through, n, goes⟩ | stuck⟩ := parts
    · exact ⟨max m n, e, repeated_mono (Nat.le_max_left m n) repeated,
        .inl ⟨through, eval_mono (Nat.le_max_right m n) goes⟩⟩
    · exact ⟨m, e, repeated, .inr stuck⟩

theorem repeats_iff {body : Block} :
    Repeats rails body position s last ↔
      ∃ e, Means rails body position s e ∧ e.Then (fun t r =>
        (t.tape.cell = 0 ∧ r = ⟨t.tick, none⟩) ∨
          (t.tape.cell ≠ 0 ∧ Repeats rails body position t.tick r)) last := by
  constructor
  · intro repeats
    obtain ⟨fuel, ran⟩ := repeats
    cases fuel with
    | zero => cases ran
    | succ fuel =>
      obtain ⟨e, first, follows⟩ := doWhile_succ_iff.mp ran
      refine ⟨e, ⟨fuel + 1, first⟩, follows.imp ?_⟩
      rintro t r (exits | ⟨nonzero, again⟩)
      · exact .inl exits
      · have more := doWhile_mono (Nat.le_succ fuel) (fun _ _ goes => goes) again
        exact .inr ⟨nonzero, fuel + 1, more⟩
  · intro parts
    obtain ⟨e, ⟨m, first⟩, follows⟩ := parts
    have once {n : Nat} (more : m ≤ n + 1) : body.eval rails (n + 1) position s = some e :=
      eval_mono more first
    rcases follows with ⟨through, exits | ⟨nonzero, n, again⟩⟩ | stuck
    · exact ⟨m + 1, doWhile_succ_iff.mpr ⟨e, once (by omega), .inl ⟨through, .inl exits⟩⟩⟩
    · have later := doWhile_mono (Nat.le_max_right m n)
        (fun _ _ goes => eval_mono (Nat.le_succ_of_le (Nat.le_max_right m n)) goes) again
      exact ⟨max m n + 1,
        doWhile_succ_iff.mpr ⟨e, once (by omega), .inl ⟨through, .inr ⟨nonzero, later⟩⟩⟩⟩
    · exact ⟨m + 1, doWhile_succ_iff.mpr ⟨e, once (by omega), .inr stuck⟩⟩

end Block

end TapeMachine
