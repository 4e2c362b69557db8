import TapeMachine.Proofs.Execution.History

/-
Machines with more cells and a higher limit. A strict instruction that is carried out never met a
bound, so a machine that only has its bounds further off carries it out alike, and none of its
further cells is read or written. So raising the bounds changes nothing for a strict program that
ends well.
-/
namespace TapeMachine

namespace Tape

/-- The larger tape begins with the cells of the smaller one, its pointer is on the same cell, and
its limit is no lower. -/
structure Within (small large : Tape) : Prop where
  pointer_eq : large.pointer = small.pointer
  cell_eq : ∀ i < small.capacity, large.cells[i]? = small.cells[i]?
  capacity_le : small.capacity ≤ large.capacity
  limit_le : small.limit ≤ large.limit

def widen (tape : Tape) (beyond : Array Nat) (limit : Nat) : Tape :=
  { cells := tape.cells ++ beyond, pointer := tape.pointer, limit }

variable {tape small large : Tape} {beyond : Array Nat} {limit : Nat}

theorem capacity_widen (tape : Tape) (beyond : Array Nat) (limit : Nat) :
    (tape.widen beyond limit).capacity = tape.capacity + beyond.size :=
  Array.size_append

theorem within_widen (beyond : Array Nat) (higher : tape.limit ≤ limit) :
    tape.Within (tape.widen beyond limit) where
  pointer_eq := rfl
  cell_eq i inside := Array.getElem?_append_left inside
  capacity_le := by
    rw [capacity_widen]
    exact Nat.le_add_right tape.capacity beyond.size
  limit_le := higher

theorem Within.exists_widen (within : small.Within large) :
    ∃ beyond, large = small.widen beyond large.limit := by
  have cells : large.cells = small.cells ++ large.cells.extract small.capacity large.capacity := by
    apply Array.ext_getElem?
    intro i
    by_cases inside : i < small.capacity
    · rw [within.cell_eq i inside, Array.getElem?_append_left inside]
    · have behind : small.capacity ≤ i := Nat.le_of_not_lt inside
      have there : small.capacity + (i - small.capacity) = i := Nat.add_sub_of_le behind
      rw [Array.getElem?_append_right behind, Array.getElem?_extract]
      simp only [capacity] at there ⊢
      grind
  refine ⟨large.cells.extract small.capacity large.capacity, ?_⟩
  rw [widen, ← cells, ← within.pointer_eq]

theorem cell_widen (inside : tape.pointer < tape.capacity) :
    (tape.widen beyond limit).cell = tape.cell := by
  have here : (tape.cells ++ beyond)[tape.pointer]? = tape.cells[tape.pointer]? :=
    Array.getElem?_append_left inside
  simp only [widen, cell, Array.getD_eq_getD_getElem?, here]

theorem write_widen (inside : tape.pointer < tape.capacity) (value : Nat) :
    (tape.widen beyond limit).write value = (tape.write value).widen beyond limit := by
  have here : (tape.cells ++ beyond).setIfInBounds tape.pointer value =
      tape.cells.setIfInBounds tape.pointer value ++ beyond :=
    Array.setIfInBounds_append_left inside
  simp only [widen, write, here]

theorem refusal?_widen (inside : tape.pointer < tape.capacity) (higher : tape.limit ≤ limit)
    {i : Instruction} (allowed : tape.refusal? i = none) :
    (tape.widen beyond limit).refusal? i = none := by
  cases i with
  | right =>
    have room : tape.pointer + 1 < tape.capacity := by simpa [refusal?] using allowed
    have wider : tape.pointer + 1 < (tape.widen beyond limit).capacity := by
      rw [capacity_widen]
      omega
    exact if_pos wider
  | left => exact allowed
  | increment =>
    have room : tape.cell + 1 < tape.limit := by simpa [refusal?] using allowed
    have higher' : (tape.widen beyond limit).cell + 1 < limit := by
      rw [cell_widen inside]
      omega
    exact if_pos higher'
  | decrement =>
    rw [refusal?, cell_widen inside]
    exact allowed
  | print | read | loopStart | loopEnd => rfl

theorem apply_widen (inside : tape.pointer < tape.capacity) (higher : tape.limit ≤ limit)
    {i : Instruction} (allowed : tape.refusal? i = none) :
    (tape.widen beyond limit).apply i = (tape.apply i).widen beyond limit := by
  cases i with
  | right =>
    have room : tape.pointer + 1 < tape.capacity := by simpa [refusal?] using allowed
    have same : min (tape.pointer + 1) (tape.capacity + beyond.size - 1) =
        min (tape.pointer + 1) (tape.capacity - 1) := by omega
    simp only [apply, moveRight, capacity_widen]
    simp only [widen, same]
  | left => rfl
  | increment =>
    have room : tape.cell + 1 < tape.limit := by simpa [refusal?] using allowed
    have small : (tape.cell + 1) % tape.limit = tape.cell + 1 := Nat.mod_eq_of_lt room
    have large : (tape.cell + 1) % limit = tape.cell + 1 := Nat.mod_eq_of_lt (by omega)
    calc
      (tape.widen beyond limit).increment =
          (tape.widen beyond limit).write ((tape.cell + 1) % limit) := by
        rw [increment, cell_widen inside]
        rfl
      _ = (tape.write (tape.cell + 1)).widen beyond limit := by rw [large, write_widen inside]
      _ = tape.increment.widen beyond limit := by rw [increment, small]
  | decrement =>
    rw [apply, decrement, cell_widen inside]
    exact write_widen inside _
  | print | read | loopStart | loopEnd => rfl

end Tape

theorem Token.value_of_le {token : Token} {low high value : Nat} (higher : low ≤ high)
    (accepted : token.value low = .ok value) : token.value high = .ok value := by
  obtain ⟨c, same, narrow, fits, rfl⟩ := value_eq_ok_iff.mp accepted
  exact value_eq_ok_iff.mpr ⟨c, same, narrow, Nat.lt_of_lt_of_le fits higher, rfl⟩

namespace State

def widen (s : State) (beyond : Array Nat) (limit : Nat) : State :=
  { s with tape := s.tape.widen beyond limit }

variable {code : Array Char} {control : Control} {s t : State} {c : Char} {beyond : Array Nat}
  {limit : Nat} {config : TapeConfig}

theorem Carries.widen (carried : Carries false s c t) (inside : s.tape.pointer < s.tape.capacity)
    (higher : s.tape.limit ≤ limit) (beyond : Array Nat) :
    Carries false (s.widen beyond limit) c (t.widen beyond limit) := by
  have cell : (s.widen beyond limit).tape.cell = s.tape.cell := Tape.cell_widen inside
  cases carried with
  | @act i kind allowed =>
    have here : s.tape.refusal? i = none := by simpa using allowed
    have carried : Carries false (s.widen beyond limit) i.toChar _ :=
      .act kind (.inr (Tape.refusal?_widen inside higher here))
    rw [State.widen, Tape.apply_widen inside higher here] at carried
    exact carried
  | print printable =>
    rw [← cell] at printable
    have carried : Carries false (s.widen beyond limit) '.' _ := .print printable
    rw [cell] at carried
    exact carried
  | read accepted =>
    have carried : Carries false (s.widen beyond limit) ',' _ :=
      .read (Token.value_of_le higher accepted)
    rw [State.widen, Tape.write_widen inside] at carried
    exact carried
  | enter => exact .enter (s := s.widen beyond limit)
  | leave loops zero => exact .leave (s := s.widen beyond limit) loops (cell.trans zero)
  | again loops nonzero =>
    rw [← cell] at nonzero
    exact .again (s := s.widen beyond limit) loops nonzero

/-- Besides what the tapes have to do with each other, the smaller one has to stay in order. -/
def Widened (config : TapeConfig) (beyond : Array Nat) (limit : Nat) (s s' : State) : Prop :=
  s.tape.Fits config ∧ s' = s.widen beyond limit

theorem Widened.next {s' : State} (widened : Widened config beyond limit s s')
    (higher : config.limit ≤ limit) (next : s.turn code false control = .next t) :
    ∃ t', s'.turn code false control = .next t' ∧ Widened config beyond limit t t' := by
  obtain ⟨fits, rfl⟩ := widened
  obtain ⟨c, found, uncut, carried⟩ := turn_eq_next_iff.mp next
  have higher' : s.tape.limit ≤ limit := fits.limit_eq ▸ higher
  have carried' := carried.widen fits.pointer_lt higher' beyond
  exact ⟨_, turn_eq_next_iff.mpr ⟨c, found, uncut, carried'⟩, carried.fits fits, rfl⟩

theorem after?_widen (fits : s.tape.Fits config) (higher : config.limit ≤ limit)
    (beyond : Array Nat) {n : Nat} (reached : after? code false control n s = some t) :
    after? code false control n (s.widen beyond limit) = some (t.widen beyond limit) := by
  have start : Widened config beyond limit s (s.widen beyond limit) := ⟨fits, rfl⟩
  obtain ⟨t', reached', _, same⟩ :=
    after?_simulates _ (fun widened next => widened.next higher next) start reached
  rw [reached', same]

theorem run_widen (fits : s.tape.Fits config) (higher : config.limit ≤ limit)
    (beyond : Array Nat) {fuel : Nat} (ran : run code false control fuel s = some ⟨t, none⟩) :
    run code false control fuel (s.widen beyond limit) = some ⟨t.widen beyond limit, none⟩ := by
  obtain ⟨n, u, early, reached, stop⟩ := run_eq_some_iff.mp ran
  obtain ⟨finished, outside, rfl⟩ := turn_eq_stop_well_iff.mp stop
  have stop' : (t.widen beyond limit).turn code false control =
      .stop ⟨t.widen beyond limit, none⟩ :=
    turn_eq_stop_well_iff.mpr ⟨finished, outside, rfl⟩
  exact run_eq_some_iff.mpr ⟨n, _, early, after?_widen fits higher beyond reached, stop'⟩

end State

theorem execute_widen {source : List Char} {control : Control} {tape : Tape} {input : Input}
    {fuel limit : Nat} {outcome : Outcome} {summary : Summary} (fits : tape.WellFormed)
    (higher : tape.limit ≤ limit) (beyond : Array Nat)
    (ran : execute { fuel, rails := false, control } source tape input = some outcome)
    (done : outcome.result = .ok summary) :
    execute { fuel, rails := false, control } source (tape.widen beyond limit) input =
      some { outcome with tape := outcome.tape.widen beyond limit } := by
  rcases execute_eq_some_iff.mp ran with
    ⟨fault, _, rfl⟩ | ⟨code, ⟨last, fault?⟩, accepted, halted, rfl⟩
  · cases done
  · obtain ⟨well, _⟩ := Halt.result_eq_ok_iff.mp done
    cases well
    have fits' : tape.Fits ⟨tape.capacity, tape.limit⟩ := ⟨fits, rfl, rfl⟩
    have halted' := State.run_widen (s := .start tape input) fits' higher beyond halted
    exact execute_eq_some_iff.mpr (.inr ⟨code, _, accepted, halted', rfl⟩)

/-- A strict program that ends well does so alike where there are more cells and the limit is no
lower: with the same summary, output and rest of the input, the same pointer and the same values in
the cells that both tapes have. The further cells stay as they were. -/
theorem raised_bounds_keep_success {source : List Char} {control : Control} {small large : Tape}
    {input : Input} {fuel : Nat} {outcome : Outcome} {summary : Summary}
    (fits : small.WellFormed) (within : small.Within large)
    (ran : execute { fuel, rails := false, control } source small input = some outcome)
    (done : outcome.result = .ok summary) :
    ∃ after, execute { fuel, rails := false, control } source large input =
        some { result := .ok summary, tape := after, input := outcome.input,
               output := outcome.output } ∧
      outcome.tape.Within after ∧ outcome.tape.capacity = small.capacity ∧
      after.capacity = large.capacity ∧ after.limit = large.limit ∧
      ∀ i, small.capacity ≤ i → after.cells[i]? = large.cells[i]? := by
  obtain ⟨beyond, same⟩ := within.exists_widen
  have kept : outcome.tape.Fits ⟨small.capacity, small.limit⟩ := execute_fits ⟨fits, rfl, rfl⟩ ran
  have higher : outcome.tape.limit ≤ large.limit := kept.limit_eq ▸ within.limit_le
  have ran' := execute_widen fits within.limit_le beyond ran done
  rw [← same, done] at ran'
  refine ⟨outcome.tape.widen beyond large.limit, ran', Tape.within_widen beyond higher,
    kept.size_eq, ?capacity, rfl, ?untouched⟩
  case capacity =>
    rw [Tape.capacity_widen, same, Tape.capacity_widen]
    exact congrArg (· + beyond.size) kept.size_eq
  case untouched =>
    intro i behind
    have cells : large.cells = small.cells ++ beyond := congrArg Tape.cells same
    have size : outcome.tape.cells.size = small.cells.size := kept.size_eq
    rw [cells, Array.getElem?_append_right behind, Tape.widen,
      Array.getElem?_append_right (size ▸ behind), size]

/-- A loop that reads and prints in the last cell, up to the limit, and the same loop on a tape with
one more cell. -/
theorem raised_bounds_keep_loop :
    ∃ after, execute { fuel := 12 } ['+', '+', '[', '>', ',', '.', '<', '-', '-', ']']
        ⟨#[0, 5, 9], 0, 1000⟩ (.queue [.text ['A'], .text ['B']]) =
          some ⟨.ok ⟨1, 10⟩, after, .queue [.text ['B']], #['A']⟩ ∧
      Tape.Within ⟨#[0, 65], 0, 66⟩ after ∧ after.cells[2]? = some 9 := by
  have accepted : Source.sanitize ['+', '+', '[', '>', ',', '.', '<', '-', '-', ']'] =
      .ok ['+', '+', '[', '>', ',', '.', '<', '-', '-', ']'] := by
    cbv
  have ran : execute { fuel := 12 } ['+', '+', '[', '>', ',', '.', '<', '-', '-', ']']
      ⟨#[0, 5], 0, 66⟩ (.queue [.text ['A'], .text ['B']]) =
        some ⟨.ok ⟨1, 10⟩, ⟨#[0, 65], 0, 66⟩, .queue [.text ['B']], #['A']⟩ := by
    simp only [execute, accepted]
    rfl
  have fits : Tape.WellFormed ⟨#[0, 5], 0, 66⟩ := ⟨by decide, by decide⟩
  have within : Tape.Within ⟨#[0, 5], 0, 66⟩ ⟨#[0, 5, 9], 0, 1000⟩ :=
    ⟨rfl, by decide, by decide, by decide⟩
  obtain ⟨after, ran', within', _, _, _, untouched⟩ :=
    raised_bounds_keep_success fits within ran rfl
  exact ⟨after, ran', within', untouched 2 (by decide)⟩

end TapeMachine
