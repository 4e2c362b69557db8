import TapeMachine.Dump
import TapeMachine.Proofs.Text.Painted

/-
What a dump shows. Its second line has the cells of the window side by side, painted by whether they
are zero; its first line has a marker in the column of the first digit of the cell that the pointer
is on, or says that the pointer is on none of them. Drawing the cells one by one, with the width of
what is drawn kept beside them, comes to the same lines.
-/
namespace TapeMachine.Dump

open Text

variable {tape : Tape} {start stop : Nat} {c : Char}

def cells (tape : Tape) (start stop : Nat) : List Nat :=
  (List.range' start (stop - start)).map (tape.cells.getD · 0)

def cellChars (value : Nat) : List Char := '[' :: ((toString value).toList ++ [']'])

def cellsLine (tape : Tape) (start stop : Nat) : List Char :=
  (cells tape start stop).flatMap cellChars

/-- The first line. A marker has the text of the cells before the pointer's cell, and the bracket of
that cell, on its left. -/
inductive FirstLine (tape : Tape) (start stop : Nat) : List Char → Prop
  | above (first : start ≤ tape.pointer) (last : tape.pointer < stop) {left right : List Char}
      (before : left = cellsLine tape start tape.pointer)
      (place : cellsLine tape start stop =
        left ++ '[' :: ((toString tape.cell).toList ++ ']' :: right)) :
      FirstLine tape start stop
        (List.replicate (left.length + 1) ' ' ++
          'v' :: (" (" ++ toString (tape.pointer + 1) ++ ")").toList)
  | elsewhere (outside : ¬ (start ≤ tape.pointer ∧ tape.pointer < stop)) :
      FirstLine tape start stop
        ("pointer at " ++ toString (tape.pointer + 1) ++ " (outside cells " ++
          toString (start + 1) ++ "..=" ++ toString stop ++ ")").toList

/-- The cells of the window by numbers up to `largest`, where the sum of start and width stops. They
are there if the tape can be cut at both ends of the window and no cell's number is too large. -/
def checkedCells? (largest : Nat) (tape : Tape) (width offset : Nat) : Option (List Nat) :=
  let start := min offset tape.capacity
  let stop := min (min (start + width) largest) tape.capacity
  if start ≤ stop ∧ stop ≤ tape.capacity ∧ start + 1 ≤ largest then some (cells tape start stop)
  else none

theorem toList_cellText (value : Nat) : (cellText value).toList = cellChars value := by
  simp [cellText, cellChars]

theorem length_cellText (value : Nat) : (cellText value).length = (cellChars value).length := by
  rw [← toList_cellText, String.length_toList]

theorem slice_eq (inside : stop ≤ tape.capacity) :
    slice tape { start, stop } = cells tape start stop := by
  unfold Tape.capacity at inside
  refine List.ext_getElem ?_ ?_
  · simp only [slice, cells, Array.length_toList, Array.size_extract, List.length_map,
      List.length_range']
    omega
  · intro i _ small
    have length : i < stop - start := by simpa [cells] using small
    have within : start + i < tape.cells.size := by omega
    simp [slice, cells, within]

theorem cells_append {middle : Nat} (first : start ≤ middle) (last : middle ≤ stop) :
    cells tape start stop = cells tape start middle ++ cells tape middle stop := by
  have parts : List.range' start (stop - start) =
      List.range' start (middle - start) ++ List.range' middle (stop - middle) := by
    have whole := @List.range'_append_1 start (middle - start) (stop - middle)
    rw [Nat.add_sub_cancel' first, show middle - start + (stop - middle) = stop - start by omega]
      at whole
    exact whole.symm
  rw [cells, parts, List.map_append]
  rfl

theorem cells_cons (inside : start < stop) :
    cells tape start stop = tape.cells.getD start 0 :: cells tape (start + 1) stop := by
  rw [cells, show stop - start = (stop - (start + 1)) + 1 by omega, List.range'_succ,
    List.map_cons]
  rfl

theorem cells_concat (first : start ≤ stop) :
    cells tape start (stop + 1) = cells tape start stop ++ [tape.cells.getD stop 0] := by
  rw [cells_append first (Nat.le_succ stop), cells_cons (Nat.lt_succ_self stop)]
  simp [cells]

theorem cellsLine_concat (first : start ≤ stop) :
    cellsLine tape start (stop + 1) =
      cellsLine tape start stop ++ cellChars (tape.cells.getD stop 0) := by
  simp [cellsLine, cells_concat first]

theorem cellsLine_at_pointer (first : start ≤ tape.pointer) (last : tape.pointer < stop) :
    cellsLine tape start stop =
      cellsLine tape start tape.pointer ++
        '[' :: ((toString tape.cell).toList ++ ']' :: cellsLine tape (tape.pointer + 1) stop) := by
  unfold cellsLine
  rw [cells_append first (Nat.le_of_lt last), cells_cons last, List.flatMap_append,
    List.flatMap_cons]
  simp [cellChars, Tape.cell]

theorem markerColumn_eq (inside : tape.pointer ≤ tape.capacity) :
    markerColumn tape { start, stop } = (cellsLine tape start tape.pointer).length + 1 := by
  rw [markerColumn, slice_eq inside, cellsLine]
  simp only [toList_cellText]

theorem not_mem_cellsLine (digit : c.isDigit = false) (opening : c ≠ '[') (closing : c ≠ ']') :
    c ∉ cellsLine tape start stop := by
  intro member
  obtain ⟨value, _, inside⟩ := List.mem_flatMap.mp member
  simp [cellChars, opening, closing, not_mem_toDigits digit] at inside

/-- A window as it is drawn from left to right: the column of the marker once the pointer's cell is
drawn, the width so far and the painted cells. -/
structure Row where
  marker? : Option Nat := none
  width : Nat := 0
  text : String := ""

namespace Row

def push (palette : Palette) (tape : Tape) (row : Row) (value position : Nat) : Row :=
  { marker? := if position = tape.pointer then some (row.width + 1) else row.marker?
    width := row.width + (cellText value).length
    text := row.text ++ paintedCell palette value }

def ofWindow (palette : Palette) (tape : Tape) (b : Bounds) : Row :=
  ((slice tape b).zipIdx b.start).foldl (fun row cell => row.push palette tape cell.1 cell.2) {}

def firstLine (palette : Palette) (tape : Tape) (b : Bounds) (row : Row) : String :=
  let position := toString (tape.pointer + 1)
  match row.marker? with
  | some column =>
    String.ofList (List.replicate column ' ') ++ palette.pointer.paint "v" ++
      " (" ++ position ++ ")"
  | none =>
    "pointer at " ++ position ++ " (outside cells " ++ toString (b.start + 1) ++ "..=" ++
      toString b.stop ++ ")"

theorem ofWindow_concat (palette : Palette) (first : start ≤ stop) (room : stop < tape.capacity) :
    ofWindow palette tape { start, stop := stop + 1 } =
      (ofWindow palette tape { start, stop }).push palette tape (tape.cells.getD stop 0) stop := by
  have shorter : slice tape { start, stop } = cells tape start stop := slice_eq (Nat.le_of_lt room)
  have length : (cells tape start stop).length = stop - start := by simp [cells]
  rw [ofWindow, ofWindow, slice_eq room, cells_concat first, List.zipIdx_append, List.foldl_append,
    length, shorter]
  simp [Nat.add_sub_cancel' first]

/-- When the pointer's cell is drawn the width is that of the cells before it, and no later cell
changes the marker. -/
theorem ofWindow_eq (palette : Palette) (first : start ≤ stop) (inside : stop ≤ tape.capacity) :
    ofWindow palette tape { start, stop } =
      { marker? :=
          if start ≤ tape.pointer ∧ tape.pointer < stop then
            some ((cellsLine tape start tape.pointer).length + 1)
          else none
        width := (cellsLine tape start stop).length
        text := String.join ((cells tape start stop).map (paintedCell palette)) } := by
  induction first with
  | refl =>
    have none : cells tape start start = [] := by simp [cells]
    have outside : ¬ (start ≤ tape.pointer ∧ tape.pointer < start) := by omega
    rw [ofWindow, slice_eq inside, none, if_neg outside]
    simp [cellsLine, none, String.join]
  | @step stop first ih =>
    have first : start ≤ stop := first
    rw [ofWindow_concat palette first inside, ih (Nat.le_of_succ_le inside), push,
      cells_concat first, cellsLine_concat first, length_cellText]
    by_cases here : stop = tape.pointer
    · have reached : start ≤ tape.pointer ∧ tape.pointer < stop + 1 := by omega
      rw [if_pos here, if_pos reached, ← here]
      simp
    · have same : (start ≤ tape.pointer ∧ tape.pointer < stop + 1) =
          (start ≤ tape.pointer ∧ tape.pointer < stop) := propext (by omega)
      simp only [if_neg here, same]
      simp

theorem firstLine_ofWindow (palette : Palette) (first : start ≤ stop)
    (inside : stop ≤ tape.capacity) :
    (ofWindow palette tape { start, stop }).firstLine palette tape { start, stop } =
      marker palette tape { start, stop } := by
  rw [ofWindow_eq palette first inside, firstLine, marker]
  by_cases within : start ≤ tape.pointer ∧ tape.pointer < stop
  · rw [if_pos within, if_pos within, markerColumn_eq (by omega)]
  · rw [if_neg within, if_neg within]

end Row

/-- Drawing a window cell by cell gives the dump. -/
theorem dump_eq_drawn (palette : Palette) (tape : Tape) (width offset : Nat) :
    let window := bounds tape.capacity width offset
    let row := Row.ofWindow palette tape window
    tape.dump palette width offset = row.firstLine palette tape window ++ "\n" ++ row.text := by
  intro window row
  have first : window.start ≤ window.stop := by
    simp only [window, bounds]
    omega
  have inside : window.stop ≤ tape.capacity := Nat.min_le_right _ _
  have top : row.firstLine palette tape window = marker palette tape window :=
    Row.firstLine_ofWindow palette first inside
  have cells : row.text = String.join ((slice tape window).map (paintedCell palette)) := by
    rw [slice_eq inside]
    exact congrArg Row.text (Row.ofWindow_eq palette first inside)
  rw [top, cells]
  rfl

def cellGlyphs (palette : Palette) (value : Nat) : List Glyph :=
  inked (if value = 0 then palette.cellEmpty else palette.cellNonzero).pen (cellChars value)

theorem map_char_cellGlyphs (palette : Palette) (values : List Nat) :
    (values.flatMap (cellGlyphs palette)).map (·.char) = values.flatMap cellChars := by
  simp only [List.map_flatMap, cellGlyphs, map_char_inked]

theorem shown_cells (palette : Palette) (values : List Nat) :
    shown none none (String.join (values.map (paintedCell palette))).toList =
      values.flatMap (cellGlyphs palette) := by
  rw [String.toList_join]
  induction values with
  | nil => rfl
  | cons value values ih =>
    have clean : '\x1b' ∉ (cellText value).toList := by
      simp [toList_cellText, cellChars, not_mem_toDigits]
    rw [List.map_cons, List.flatMap_cons, paintedCell, Colour.shown_paint _ clean, ih,
      toList_cellText]
    rfl

theorem shown_marker (palette : Palette) (inside : stop ≤ tape.capacity) (t : List Char) :
    ∃ top, shown none none ((marker palette tape { start, stop }).toList ++ t) =
        top ++ shown none none t ∧
      FirstLine tape start stop (top.map (·.char)) ∧ '\n' ∉ top.map (·.char) := by
  have escape (n : Nat) : '\x1b' ∉ Nat.toDigits 10 n := not_mem_toDigits (by decide)
  have feed (n : Nat) : '\n' ∉ Nat.toDigits 10 n := not_mem_toDigits (by decide)
  by_cases within : start ≤ tape.pointer ∧ tape.pointer < stop
  · obtain ⟨first, last⟩ := within
    let indent := List.replicate ((cellsLine tape start tape.pointer).length + 1) ' '
    let place := (" (" ++ toString (tape.pointer + 1) ++ ")").toList
    have text : (marker palette tape { start, stop }).toList ++ t =
        indent ++ ((palette.pointer.paint "v").toList ++ (place ++ t)) := by
      rw [marker, if_pos ⟨first, last⟩, markerColumn_eq (by omega)]
      simp [indent, place]
    refine ⟨inked none indent ++ (inked palette.pointer.pen ['v'] ++ inked none place), ?_, ?_, ?_⟩
    · rw [text, shown_append (by simp [indent]), Colour.shown_paint _ (by decide),
        shown_append (by simp [place, escape])]
      simp
    · simp only [List.map_append, map_char_inked]
      exact .above first last rfl (cellsLine_at_pointer first last)
    · simp [indent, place, feed]
  · let note := "pointer at " ++ toString (tape.pointer + 1) ++ " (outside cells " ++
      toString (start + 1) ++ "..=" ++ toString stop ++ ")"
    have text : marker palette tape { start, stop } = note := by
      rw [marker, if_neg within]
    refine ⟨inked none note.toList, ?_, ?_, ?_⟩
    · rw [text, shown_append (by simp [note, escape])]
    · rw [map_char_inked]
      exact .elsewhere within
    · simp [note, feed]

/-- A dump is two lines. The second has the cells of the window, each in its colour; the first has
its marker in the column of the first digit of the pointer's cell, or says where the pointer is. The
window is the same if the sum of start and width stops at a largest number. -/
theorem dump_shows_cells_under_marker (palette : Palette) (tape : Tape) (width offset : Nat)
    {start stop : Nat} (starts : start = min offset tape.capacity)
    (stops : stop = min (start + width) tape.capacity) :
    ∃ first top, FirstLine tape start stop first ∧
      '\n' ∉ first ∧ '\n' ∉ cellsLine tape start stop ∧
      dropEscapes false (tape.dump palette width offset).toList =
        first ++ '\n' :: cellsLine tape start stop ∧
      shown none none (tape.dump palette width offset).toList =
        top ++ { char := '\n', pen := none } ::
          (cells tape start stop).flatMap (cellGlyphs palette) ∧
      top.map (·.char) = first ∧
      ∀ largest, tape.capacity < largest →
        checkedCells? largest tape width offset = some (cells tape start stop) := by
  have inside : stop ≤ tape.capacity := by omega
  have text : (tape.dump palette width offset).toList =
      (marker palette tape { start, stop }).toList ++
        '\n' :: (String.join ((cells tape start stop).map (paintedCell palette))).toList := by
    have window : bounds tape.capacity width offset = { start, stop } := by
      rw [bounds, ← starts, ← stops]
    rw [Tape.dump, window, slice_eq inside]
    simp
  obtain ⟨top, shows, first, oneLine⟩ := shown_marker palette inside
    ('\n' :: (String.join ((cells tape start stop).map (paintedCell palette))).toList)
  have whole : shown none none (tape.dump palette width offset).toList =
      top ++ { char := '\n', pen := none } ::
        (cells tape start stop).flatMap (cellGlyphs palette) := by
    rw [text, shows, shown, if_neg (by decide), shown_cells]
  refine ⟨top.map (·.char), top, first, oneLine, ?_, ?_, whole, rfl, ?_⟩
  · exact not_mem_cellsLine (by decide) (by decide) (by decide)
  · have plain := map_char_shown none none (tape.dump palette width offset).toList
    rw [whole, List.map_append, List.map_cons, map_char_cellGlyphs] at plain
    exact plain.symm
  · intro largest room
    have same : min (min (start + width) largest) tape.capacity = stop := by omega
    simp only [checkedCells?, ← starts, same]
    exact if_pos ⟨by omega, inside, by omega⟩

/-- Cells of different widths, in a window as wide as a number of 64 bits can say. -/
theorem dump_shows_last_cells_under_marker :
    1 = min 1 4 ∧ 4 = min (1 + 18446744073709551615) 4 ∧
      dropEscapes false
        (Tape.dump .default ⟨#[1, 200, 0, 30], 3, 256⟩ 18446744073709551615 1).toList =
          "         v (4)\n[200][0][30]".toList := by
  obtain ⟨first, _, marked, _, _, text, _⟩ :=
    dump_shows_cells_under_marker .default ⟨#[1, 200, 0, 30], 3, 256⟩ 18446744073709551615 1
      (show 1 = min 1 4 from rfl) (show 4 = min (1 + 18446744073709551615) 4 from rfl)
  refine ⟨rfl, rfl, text.trans ?_⟩
  cases marked with
  | above _ _ before _ =>
    rw [before]
    rfl
  | elsewhere outside => exact absurd (by decide) outside

end TapeMachine.Dump
