import Mathlib.Data.List.SplitBy
import TapeMachine.Highlight

/-
The runs of a highlighted line. Their texts make up the line, every character is in a run of its own
style, and neighbours differ in style. A line has only one list of such runs, and it is the one that
comes of reading the line character by character with the latest run kept open.
-/
namespace TapeMachine

/-- A line cut into runs of one style, each as long as it can be. -/
structure RunsOf (palette : Palette) (line : List Char) (runs : List StyledRun) : Prop where
  whole : runs.flatMap (·.text) = line
  filled : ∀ run ∈ runs, run.text ≠ []
  styled : ∀ run ∈ runs, ∀ c ∈ run.text, run.style = .ofChar palette c
  maximal : runs.IsChain (·.style ≠ ·.style)

/-- A line on which the reader has come so far: the runs that are over, and the style and the text
of the run that is open. There is none before the first character. -/
structure Highlighting where
  ended : List StyledRun := []
  style? : Option Style := none
  text : List Char := []

namespace Highlighting

def push (palette : Palette) (h : Highlighting) (c : Char) : Highlighting :=
  let style := Style.ofChar palette c
  match h.style? with
  | some current =>
    if current = style then { h with text := h.text ++ [c] }
    else { ended := h.ended ++ [⟨current, h.text⟩], style? := some style, text := [c] }
  | none => { h with style? := some style, text := h.text ++ [c] }

def close (h : Highlighting) : List StyledRun :=
  match h.style? with
  | some style => if h.text = [] then h.ended else h.ended ++ [⟨style, h.text⟩]
  | none => h.ended

def ofLine (palette : Palette) (line : List Char) : Highlighting := line.foldl (push palette) {}

/-- What a reader holds after so many characters. An open run is never empty. -/
inductive Holds (palette : Palette) : List Char → Highlighting → Prop
  | fresh : Holds palette [] {}
  | reading {read text : List Char} {ended : List StyledRun} {style : Style} (begun : text ≠ [])
      (cut : RunsOf palette read (ended ++ [⟨style, text⟩])) :
      Holds palette read ⟨ended, some style, text⟩

end Highlighting

variable {palette : Palette} {line read : List Char} {runs ended : List StyledRun} {c : Char}

namespace RunsOf

theorem nil (palette : Palette) : RunsOf palette [] [] :=
  ⟨rfl, by simp, by simp, .nil⟩

theorem concat_iff {last : StyledRun} :
    RunsOf palette line (ended ++ [last]) ↔
      ∃ front, line = front ++ last.text ∧ RunsOf palette front ended ∧ last.text ≠ [] ∧
        (∀ c ∈ last.text, last.style = .ofChar palette c) ∧
        ∀ run, ended.getLast? = some run → run.style ≠ last.style := by
  constructor
  · intro cut
    obtain ⟨rfl, filled, styled, maximal⟩ := cut
    rw [List.forall_mem_append, List.forall_mem_singleton] at filled styled
    obtain ⟨before, _, seam⟩ := List.isChain_append.mp maximal
    refine ⟨ended.flatMap (·.text), by simp, ⟨rfl, filled.1, styled.1, before⟩, filled.2, styled.2,
      ?_⟩
    intro run found
    exact seam run found last rfl
  · intro parts
    obtain ⟨front, rfl, ⟨rfl, filled, styled, maximal⟩, begun, one, seam⟩ := parts
    refine ⟨by simp, ?filled, ?styled, ?maximal⟩
    case filled => exact List.forall_mem_append.mpr ⟨filled, List.forall_mem_singleton.mpr begun⟩
    case styled => exact List.forall_mem_append.mpr ⟨styled, List.forall_mem_singleton.mpr one⟩
    case maximal =>
      refine List.isChain_append.mpr ⟨maximal, .singleton last, ?_⟩
      intro run found next first
      cases first
      exact seam run found

theorem extend {style : Style} {text : List Char}
    (cut : RunsOf palette read (ended ++ [⟨style, text⟩])) (same : style = .ofChar palette c) :
    RunsOf palette (read ++ [c]) (ended ++ [⟨style, text ++ [c]⟩]) := by
  obtain ⟨front, rfl, before, _, one, seam⟩ := concat_iff.mp cut
  refine concat_iff.mpr ⟨front, List.append_assoc front text [c], before, by simp, ?_, seam⟩
  intro d inside
  rcases List.mem_append.mp inside with earlier | latest
  · exact one d earlier
  · rw [List.mem_singleton.mp latest]
    exact same

theorem begin (cut : RunsOf palette read runs)
    (other : ∀ run, runs.getLast? = some run → run.style ≠ .ofChar palette c) :
    RunsOf palette (read ++ [c]) (runs ++ [⟨.ofChar palette c, [c]⟩]) :=
  concat_iff.mpr ⟨read, rfl, cut, by simp, by simp, other⟩

theorem splitBy_eq (cut : RunsOf palette line runs) :
    (line.splitBy fun a b => Style.ofChar palette a = Style.ofChar palette b) =
      runs.map (·.text) := by
  obtain ⟨rfl, filled, styled, maximal⟩ := cut
  rw [List.flatMap_def]
  refine List.splitBy_flatten ?filled ?one ?seams
  case filled =>
    intro empty
    obtain ⟨run, member, none⟩ := List.mem_map.mp empty
    exact filled run member none
  case one =>
    intro text found
    obtain ⟨run, member, rfl⟩ := List.mem_map.mp found
    refine (List.pairwise_of_forall_mem_list ?_).isChain
    intro a first b second
    rw [decide_eq_true_iff, ← styled run member a first, ← styled run member b second]
  case seams =>
    rw [List.isChain_map]
    refine maximal.imp_of_mem_imp ?_
    intro left right before after apart
    have last := List.getLast_mem (filled left before)
    have first := List.head_mem (filled right after)
    refine ⟨filled left before, filled right after, ?_⟩
    rwa [decide_eq_false_iff_not, ← styled left before _ last, ← styled right after _ first]

theorem ofChars?_text (cut : RunsOf palette line runs) {run : StyledRun} (member : run ∈ runs) :
    StyledRun.ofChars? palette run.text = some run := by
  obtain ⟨style, text⟩ := run
  cases text with
  | nil => exact absurd rfl (cut.filled _ member)
  | cons c cs =>
    have same : style = .ofChar palette c := cut.styled _ member c List.mem_cons_self
    rw [same]
    rfl

theorem highlight_eq (cut : RunsOf palette line runs) : highlight palette line = runs := by
  rw [highlight, cut.splitBy_eq, List.filterMap_map]
  calc
    runs.filterMap (StyledRun.ofChars? palette ∘ (·.text)) = runs.filterMap some :=
      List.filterMap_congr fun _ member => cut.ofChars?_text member
    _ = runs := List.filterMap_some

end RunsOf

namespace Highlighting

theorem Holds.push {h : Highlighting} (holds : Holds palette read h) (c : Char) :
    Holds palette (read ++ [c]) (h.push palette c) := by
  cases holds with
  | fresh => exact .reading (by simp) ((RunsOf.nil palette).begin (by simp))
  | reading begun cut =>
    simp only [Highlighting.push]
    split
    · rename_i same
      exact .reading (by simp) (cut.extend same)
    · rename_i other
      refine .reading (by simp) (cut.begin ?_)
      intro run last
      rw [List.getLast?_concat] at last
      cases last
      exact other

theorem holds_ofLine (palette : Palette) (line : List Char) :
    Holds palette line (ofLine palette line) := by
  suffices later : ∀ rest read h, Holds palette read h →
      Holds palette (read ++ rest) (rest.foldl (push palette) h) from later line [] {} .fresh
  intro rest
  induction rest with
  | nil =>
    intro read h holds
    rwa [List.append_nil]
  | cons c rest ih =>
    intro read h holds
    rw [List.append_cons]
    exact ih (read ++ [c]) (h.push palette c) (holds.push c)

theorem Holds.close {h : Highlighting} (holds : Holds palette read h) :
    RunsOf palette read h.close := by
  cases holds with
  | fresh => exact .nil palette
  | reading begun cut =>
    simp only [Highlighting.close, if_neg begun]
    exact cut

end Highlighting

/-- A line is highlighted in runs that keep its characters and their styles and are as long as they
can be. No other runs are so, and reading the line character by character gives them. -/
theorem highlight_keeps_line_in_maximal_runs (palette : Palette) (line : List Char) :
    RunsOf palette line (highlight palette line) ∧
      (∀ runs, RunsOf palette line runs → highlight palette line = runs) ∧
      (Highlighting.ofLine palette line).close = highlight palette line := by
  have cut := (Highlighting.holds_ofLine palette line).close
  have same : highlight palette line = (Highlighting.ofLine palette line).close := cut.highlight_eq
  refine ⟨?_, fun runs other => other.highlight_eq, same.symm⟩
  rw [same]
  exact cut

/-- Two instructions that a palette gives one colour, and a comment behind them. -/
theorem highlight_joins_instructions_of_one_colour :
    RunsOf { Palette.default with opDec := .red, opInc := .red } ['+', '-', 'a']
        [⟨⟨.red, true, false⟩, ['+', '-']⟩, ⟨⟨.rgb 108 112 134, false, true⟩, ['a']⟩] ∧
      highlight { Palette.default with opDec := .red, opInc := .red } ['+', '-', 'a'] =
        [⟨⟨.red, true, false⟩, ['+', '-']⟩, ⟨⟨.rgb 108 112 134, false, true⟩, ['a']⟩] := by
  have cut : RunsOf { Palette.default with opDec := .red, opInc := .red } ['+', '-', 'a']
      [⟨⟨.red, true, false⟩, ['+', '-']⟩, ⟨⟨.rgb 108 112 134, false, true⟩, ['a']⟩] :=
    ⟨rfl, by simp, by simp [Style.ofChar, Instruction.ofChar?, Instruction.role, Palette.get,
      Palette.default, Palette.ofRoles, Role.defaultColour], List.isChain_pair.mpr (by simp)⟩
  obtain ⟨_, only, _⟩ := highlight_keeps_line_in_maximal_runs
    { Palette.default with opDec := .red, opInc := .red } ['+', '-', 'a']
  exact ⟨cut, only _ cut⟩

end TapeMachine
