import TapeMachine.Input

/-
Lines of bytes and what they are received as. Every stream is its lines one behind the other, and
cutting a line off takes the first of them; a line is received as its text up to the line feeds and
carriage returns at its end, or as a failure if no text is encoded so.
-/
namespace TapeMachine.Input

open Text

variable {bytes line : List UInt8} {ls : List (List UInt8)} {s ends text : List Char} {c : Char}

/-- Lines that each run up to their line feed, which only the last may lack. -/
inductive Lines : List (List UInt8) → Prop
  | nil : Lines []
  | unended (line : List UInt8) (present : line ≠ []) (plain : lineFeed ∉ line) : Lines [line]
  | cons (front : List UInt8) {later : List (List UInt8)} (plain : lineFeed ∉ front)
      (rest : Lines later) : Lines ((front ++ [lineFeed]) :: later)

theorem cutLine_feed {front : List UInt8} (plain : lineFeed ∉ front) (rest : List UInt8) :
    cutLine (front ++ lineFeed :: rest) = (front ++ [lineFeed], rest) := by
  induction front with
  | nil => simp [cutLine]
  | cons b bs ih =>
    simp only [List.mem_cons, not_or] at plain
    simp [cutLine, Ne.symm plain.1, ih plain.2]

theorem cutLine_unended (plain : lineFeed ∉ line) : cutLine line = (line, []) := by
  induction line with
  | nil => rfl
  | cons b bs ih =>
    simp only [List.mem_cons, not_or] at plain
    simp [cutLine, Ne.symm plain.1, ih plain.2]

theorem Lines.cutLine_eq (lines : Lines ls) :
    cutLine ls.flatten = (ls.headD [], ls.tail.flatten) := by
  cases lines with
  | nil => rfl
  | unended line present plain => simpa using cutLine_unended plain
  | cons front plain rest => simpa using cutLine_feed plain _

theorem Lines.next_eq (lines : Lines ls) :
    (Input.stream ls.flatten).next = (lineToken (ls.headD []), .stream ls.tail.flatten) := by
  rw [next, lines.cutLine_eq]

theorem Lines.tail (lines : Lines ls) : Lines ls.tail := by
  cases lines with
  | nil | unended => exact .nil
  | cons front plain rest => exact rest

theorem exists_lines (bytes : List UInt8) : ∃ ls, Lines ls ∧ ls.flatten = bytes := by
  induction bytes with
  | nil => exact ⟨[], .nil, rfl⟩
  | cons b bs ih =>
    obtain ⟨ls, lines, rfl⟩ := ih
    by_cases feed : b = lineFeed
    · subst feed
      exact ⟨[lineFeed] :: ls, .cons [] (by simp) lines, rfl⟩
    · cases lines with
      | nil => exact ⟨[[b]], .unended [b] (by simp) (by simp [Ne.symm feed]), rfl⟩
      | unended line present plain =>
        exact ⟨_, .unended (b :: line) (by simp) (by simp [plain, Ne.symm feed]), by simp⟩
      | cons front plain rest =>
        exact ⟨_, .cons (b :: front) (by simp [plain, Ne.symm feed]) rest, by simp⟩

/-- What a line is received as. A text keeps no line feed and no carriage return at its end. -/
inductive TokenOf (line : List UInt8) : Token → Prop
  | text {s ends : List Char} (written : line = encode (s ++ ends))
      (stripped : ∀ c ∈ ends, c = '\n' ∨ c = '\r')
      (kept : s.getLast? ≠ some '\n' ∧ s.getLast? ≠ some '\r') : TokenOf line (.text s)
  | failure (invalid : ∀ s, line ≠ encode s) : TokenOf line (.failure invalidEncoding)

theorem isLineEnd_iff : isLineEnd c = true ↔ c = '\n' ∨ c = '\r' := by
  simp [isLineEnd]

theorem lineToken_encode (s ends : List Char) (stripped : ∀ c ∈ ends, c = '\n' ∨ c = '\r')
    (kept : s.getLast? ≠ some '\n' ∧ s.getLast? ≠ some '\r') :
    lineToken (encode (s ++ ends)) = .text s := by
  have ends_gone : ∀ c ∈ ends.reverse, isLineEnd c = true := by
    intro c member
    exact isLineEnd_iff.mpr (stripped c (List.mem_reverse.mp member))
  have text_stays : s.reverse.dropWhile isLineEnd = s.reverse := by
    rw [← List.head?_reverse] at kept
    cases backwards : s.reverse with
    | nil => rfl
    | cons c cs =>
      rw [backwards, List.head?_cons] at kept
      refine List.dropWhile_cons_of_neg ?_
      simpa [isLineEnd_iff] using kept
  simp only [lineToken, decode?_encode]
  rw [List.reverse_append, List.dropWhile_append_of_pos ends_gone, text_stays,
    List.reverse_reverse]

theorem tokenOf_lineToken (line : List UInt8) : TokenOf line (lineToken line) := by
  unfold lineToken
  split
  · rename_i invalid
    refine .failure fun s written => ?_
    rw [decode?_eq_some_iff.mpr written] at invalid
    cases invalid
  · rename_i text read
    have cut : text = (text.reverse.dropWhile isLineEnd).reverse ++
        (text.reverse.takeWhile isLineEnd).reverse := by
      rw [← List.reverse_append, List.takeWhile_append_dropWhile, List.reverse_reverse]
    have whole := decode?_eq_some_iff.mp read
    rw [cut] at whole
    refine .text whole ?stripped ?kept
    case stripped =>
      intro c member
      have all := List.all_eq_true.mp (List.all_takeWhile (p := isLineEnd) (l := text.reverse))
      exact isLineEnd_iff.mp (all c (List.mem_reverse.mp member))
    case kept =>
      rw [List.getLast?_reverse]
      have stopped := List.head?_dropWhile_not isLineEnd text.reverse
      constructor
      · intro last
        rw [last] at stopped
        cases stopped
      · intro last
        rw [last] at stopped
        cases stopped

theorem lineFeed_mem_encodeChar_iff : lineFeed ∈ String.utf8EncodeChar c ↔ c = '\n' := by
  have code : c = '\n' ↔ c.val.toNat = 10 := by
    rw [Char.ext_iff, ← UInt32.toNat_inj]
    rfl
  have byte (n : Nat) : lineFeed = UInt8.ofNat n ↔ n % 256 = 10 := by
    rw [← UInt8.toNat_inj, UInt8.toNat_ofNat', eq_comm]
    rfl
  -- The bytes of a longer encoding are at least 128.
  unfold String.utf8EncodeChar
  simp only [code]
  split
  · rename_i small
    simp only [List.mem_singleton, byte]
    omega
  · split
    · simp only [List.mem_cons, byte, List.not_mem_nil, or_false]
      omega
    · split
      · simp only [List.mem_cons, byte, List.not_mem_nil, or_false]
        omega
      · simp only [List.mem_cons, byte, List.not_mem_nil, or_false]
        omega

theorem lineFeed_mem_encode_iff : lineFeed ∈ encode s ↔ '\n' ∈ s := by
  simp [encode, List.mem_flatMap, lineFeed_mem_encodeChar_iff]

/-- Characters each on a line of its own, which a line feed ends or a carriage return and one. -/
inductive OnePerLine : List Char → List Char → Prop
  | nil : OnePerLine [] []
  | feed {c : Char} {cs text : List Char} (later : OnePerLine cs text) :
      OnePerLine (c :: cs) (c :: '\n' :: text)
  | carriage {c : Char} {cs text : List Char} (later : OnePerLine cs text) :
      OnePerLine (c :: cs) (c :: '\r' :: '\n' :: text)

def ReceivedAs (text cs : List Char) : Prop :=
  ∃ ls, Lines ls ∧ ls.flatten = encode text ∧ ls.map lineToken = cs.map (.text [·])

theorem ReceivedAs.cons {cs : List Char} (later : ReceivedAs text cs)
    (visible : c ≠ '\n' ∧ c ≠ '\r') (breaks : List Char) (carriage : ∀ b ∈ breaks, b = '\r') :
    ReceivedAs (c :: breaks ++ '\n' :: text) (c :: cs) := by
  obtain ⟨ls, lines, whole, received⟩ := later
  have plain : lineFeed ∉ encode (c :: breaks) := by
    rw [lineFeed_mem_encode_iff]
    intro member
    rcases List.mem_cons.mp member with rfl | inside
    · exact visible.1 rfl
    · cases carriage _ inside
  have line : encode (c :: breaks ++ ['\n']) = encode (c :: breaks) ++ [lineFeed] :=
    encode_append (c :: breaks) ['\n']
  have token : lineToken (encode (c :: breaks) ++ [lineFeed]) = .text [c] := by
    rw [← line]
    refine lineToken_encode [c] (breaks ++ ['\n']) ?_ (by simpa using visible)
    intro b member
    rcases List.mem_append.mp member with inside | last
    · exact .inr (carriage b inside)
    · exact .inl (List.mem_singleton.mp last)
  refine ⟨_, .cons (encode (c :: breaks)) plain lines, ?_, ?_⟩
  · rw [List.flatten_cons, whole, ← line, ← encode_append, List.append_assoc]
    rfl
  · rw [List.map_cons, List.map_cons, token, received]

theorem OnePerLine.receivedAs {cs : List Char} (typed : OnePerLine cs text)
    (visible : ∀ c ∈ cs, c ≠ '\n' ∧ c ≠ '\r') : ReceivedAs text cs := by
  induction typed with
  | nil => exact ⟨[], .nil, rfl, rfl⟩
  | feed later ih =>
    have rest := ih fun d member => visible d (List.mem_cons_of_mem _ member)
    exact rest.cons (visible _ List.mem_cons_self) [] (by simp)
  | carriage later ih =>
    have rest := ih fun d member => visible d (List.mem_cons_of_mem _ member)
    exact rest.cons (visible _ List.mem_cons_self) ['\r'] (by simp)

theorem lineToken_getD {cs : List Char} (received : ls.map lineToken = cs.map (.text [·]))
    (k : Nat) : lineToken (ls.getD k []) = .text cs[k]?.toList := by
  have here : (ls.map lineToken)[k]? = (cs.map (.text [·]))[k]? := by rw [received]
  rw [List.getElem?_map, List.getElem?_map] at here
  rw [List.getD_eq_getElem?_getD]
  cases line : ls[k]? with
  | none =>
    cases char : cs[k]? with
    | none => rfl
    | some c => simp [line, char] at here
  | some line' =>
    cases char : cs[k]? with
    | none => simp [line, char] at here
    | some c => simpa [line, char] using here

end TapeMachine.Input
