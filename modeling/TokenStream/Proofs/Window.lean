import TokenStream.Proofs.Rows
import TokenStream.Text.Utf8
import Mathlib.Tactic

/-!
# The window of an excerpt

An excerpt shows the lines around a line, as many as there are of the two in front of it and the two
behind it. Machine words count lines in the same way: no sum that is formed is too large for a word,
no difference is below zero, and no line is looked for that is not there.

**Input** a text that fits into memory, and any line and column.

**Results** when an excerpt is empty; its rows, of which each shown line has one; what stands in a
row, and where; and the same excerpt from machine words.
-/

namespace TokenStream

/-- No text has more lines than characters. -/
theorem Text.length_lines_le (cs : List Char) : (lines cs).length ≤ cs.length := by
  induction cs with
  | nil => rfl
  | cons c cs ih =>
      rw [lines, List.length_cons]
      split_ifs
      · exact Nat.succ_le_succ ih
      · exact ih.trans (Nat.le_succ _)
      · cases hlines : lines cs with
        | nil => simp
        | cons line rest =>
            rw [hlines, List.length_cons] at ih
            rw [List.length_cons]
            exact ih.trans (Nat.le_succ _)

theorem Text.length_le_byteLength (cs : List Char) : cs.length ≤ byteLength cs := by
  induction cs with
  | nil => rfl
  | cons c cs ih =>
      rw [List.length_cons, byteLength_cons, Nat.add_comm]
      exact Nat.add_le_add c.utf8Size_pos ih

namespace Excerpt

/-- The numbers of the lines that are shown around a line, in order. -/
structure Window (total line : Nat) (shown : List Nat) : Prop where
  increasing : shown.Pairwise (· < ·)
  mem_iff : ∀ i, i ∈ shown ↔ 1 ≤ i ∧ i ≤ total ∧ i ≤ line + 2 ∧ line ≤ i + 2

section Windows

variable {lines texts more : List (List Char)} {width line column total k i : Nat}

/-- The first line that is shown. -/
def firstShown (line : Nat) : Nat := max (line - margin) 1

/-- The last line that is shown. -/
def lastShown (total line : Nat) : Nat := min (line + margin) total

def numbersShown (total line : Nat) : List Nat :=
  List.range' (firstShown line) (lastShown total line + 1 - firstShown line)

theorem window_numbersShown (total line : Nat) :
    Window total line (numbersShown total line) where
  increasing := List.pairwise_lt_range' 1
  mem_iff i := by
    have hmargin : margin = 2 := rfl
    rw [numbersShown, List.mem_range'_1, firstShown, lastShown, hmargin]
    omega

theorem getLast?_numbersShown
    (hline : 1 ≤ line)
    (hle : line ≤ total) :
    (numbersShown total line).getLast? = some (lastShown total line) := by
  have hfirst : firstShown line ≤ line := by
    unfold firstShown
    omega
  have hlast : line ≤ lastShown total line := by
    unfold lastShown
    omega
  rw [numbersShown, List.getLast?_range', if_neg (by omega)]
  congr 1
  omega

/-- The row of the line with a number. -/
def rowAt (lines : List (List Char)) (width number : Nat) : List Char :=
  rowText width number (lines.getD (number - 1) [])

/-- The row of the line with a number, and the row of the caret if it is below. -/
def rowsAt (lines : List (List Char)) (width line column number : Nat) : List (List Char) :=
  rowAt lines width number :: if number = line then [caretText width column] else []

/-- The rows of lines that follow one another, number by number. -/
theorem rowTexts_eq_flatMap
    (h : lines.drop k = texts ++ more) :
    rowTexts width line column (k + 1) texts =
      (List.range' (k + 1) texts.length).flatMap (rowsAt lines width line column) := by
  induction texts generalizing k with
  | nil => rfl
  | cons text texts ih =>
      have htext : lines[k]? = some text := by
        rw [← List.head?_drop, h]
        rfl
      have hrest : lines.drop (k + 1) = texts ++ more := by
        rw [← List.tail_drop, h]
        rfl
      rw [rowTexts, ih hrest, List.length_cons, List.range'_succ, List.flatMap_cons, rowsAt,
        rowAt, Nat.add_sub_cancel, List.getD_eq_getElem?_getD, htext, Option.getD_some]

/-- An excerpt is its rows, ended one by one. -/
theorem excerpt_eq_rowsAt
    {source : List Char}
    (hlines : Text.lines source = lines)
    (hline : 1 ≤ line)
    (hle : line ≤ lines.length)
    (hwidth : width = (Decimal.natText (lastShown lines.length line)).length)
    (column : Nat) :
    excerpt source line column =
      (ruleText width ::
        (numbersShown lines.length line).flatMap (rowsAt lines width line column) ++
          [ruleText width]).flatMap (· ++ ['\n']) := by
  obtain ⟨k, hk⟩ : ∃ k, firstShown line = k + 1 := by
    refine ⟨firstShown line - 1, ?_⟩
    unfold firstShown
    omega
  obtain ⟨shown, hshown⟩ : ∃ shown,
      shown = (lines.drop k).take (lastShown lines.length line + 1 - (k + 1)) := ⟨_, rfl⟩
  have hlength : shown.length = lastShown lines.length line + 1 - (k + 1) := by
    rw [hshown, List.length_take_of_le]
    rw [List.length_drop, lastShown]
    omega
  have hdrop : lines.drop k = shown ++ (lines.drop k).drop shown.length := by
    rw [hlength, hshown, List.take_append_drop]
  rw [numbersShown, hk, ← hlength, ← rowTexts_eq_flatMap hdrop, hshown]
  subst hlines
  exact excerpt_eq_framed hline hle hk.symm rfl hwidth column

theorem excerpt_eq_nil_iff (source : List Char) (line column : Nat) :
    excerpt source line column = [] ↔ line = 0 ∨ (Text.lines source).length < line := by
  constructor
  · intro hempty
    by_contra hinside
    rw [excerpt_eq_rowsAt rfl (by omega) (by omega) rfl column] at hempty
    simp at hempty
  · intro houtside
    have hif : (line = 0 || (Text.lines source).length < line) = true := by
      simpa using houtside
    simp only [excerpt, if_pos hif]

/-- A line that is shown stands as it is behind its number, in a row of its own. -/
theorem exists_rowAt
    (hnumber : i ∈ numbersShown lines.length line)
    (hwidth : width = (Decimal.natText (lastShown lines.length line)).length) :
    ∃ text gap, lines[i - 1]? = some text ∧
      gap + (Decimal.natText i).length = width ∧
      rowAt lines width i =
        List.replicate gap ' ' ++ Decimal.natText i ++ " | ".toList ++ text ∧
      (rowAt lines width i).drop (width + 3) = text := by
  obtain ⟨hpos, hle, hlast, _⟩ := ((window_numbersShown lines.length line).mem_iff i).mp hnumber
  have hbound : i - 1 < lines.length := by omega
  have hfits : (Decimal.natText i).length ≤ width := by
    rw [hwidth]
    exact length_natText_le (le_min hlast hle)
  have hgap : width - (Decimal.natText i).length + (Decimal.natText i).length = width := by
    omega
  have hrow : rowAt lines width i =
      List.replicate (width - (Decimal.natText i).length) ' ' ++ Decimal.natText i ++
        " | ".toList ++ lines[i - 1] := by
    rw [rowAt, List.getD_eq_getElem?_getD, List.getElem?_eq_getElem hbound, Option.getD_some]
    rfl
  have hgutter : (List.replicate (width - (Decimal.natText i).length) ' ' ++ Decimal.natText i ++
      " | ".toList).length = width + 3 := by
    rw [List.length_append, List.length_append, List.length_replicate, hgap]
    rfl
  refine ⟨lines[i - 1], _, List.getElem?_eq_getElem hbound, hgap, hrow, ?_⟩
  rw [hrow, ← hgutter, List.drop_left]

theorem newline_notMem_rowsAt
    (h : ∀ text ∈ lines, '\n' ∉ text) :
    ∀ row ∈ rowsAt lines width line column i, '\n' ∉ row := by
  have hrows : rowsAt lines width line column i =
      rowTexts width line column i [lines.getD (i - 1) []] := by
    simp [rowTexts, rowsAt, rowAt]
  rw [hrows]
  refine newline_notMem_rowTexts (List.forall_mem_singleton.mpr ?_)
  rw [List.getD_eq_getElem?_getD]
  cases htext : lines[i - 1]? with
  | none => exact List.not_mem_nil
  | some text => exact h text (List.mem_of_getElem? htext)

/-- The rows of an excerpt, one by one. -/
theorem splitOn_excerpt
    {source : List Char}
    (hline : 1 ≤ line)
    (hle : line ≤ (Text.lines source).length)
    (hwidth : width = (Decimal.natText (lastShown (Text.lines source).length line)).length)
    (column : Nat) :
    (excerpt source line column).splitOn '\n' =
      ruleText width ::
        (numbersShown (Text.lines source).length line).flatMap
          (rowsAt (Text.lines source) width line column) ++ [ruleText width, []] := by
  rw [excerpt_eq_rowsAt rfl hline hle hwidth]
  refine splitOn_framed (fun row hrow => ?_) width
  obtain ⟨i, -, hrow⟩ := List.mem_flatMap.mp hrow
  exact newline_notMem_rowsAt (Text.newline_notMem_lines source) row hrow

end Windows

section Words

/-- The sum of two words, if it is a word. -/
def add? (a b : USize) : Option USize :=
  if a.toNat + b.toNat < USize.size then some (a + b) else none

/-- The difference of two words, if it is a word. -/
def sub? (a b : USize) : Option USize :=
  if b ≤ a then some (a - b) else none

/-- The difference of two words, or zero. -/
def subOrZero (a b : USize) : USize :=
  if b ≤ a then a - b else 0

/-- The words from one to another. -/
def wordsFromTo (first last : USize) : List USize :=
  (List.range' first.toNat (last.toNat + 1 - first.toNat)).map USize.ofNat

/-- The row of the line with a number, and the row of the caret if it is below. -/
def rowInWords? (lines : List (List Char)) (width : Nat) (line : USize) (column : Nat)
    (number : USize) : Option (List Char) := do
  let place ← sub? number 1
  let text ← lines[place.toNat]?
  return row width number.toNat text ++ if number = line then caret width column else []

/-- An excerpt whose lines are counted in words, if no sum is too large, no difference is below zero
and no line is looked for that is not there. -/
def inWords? (source : List Char) (line : USize) (column : Nat) : Option (List Char) :=
  let lines := Text.lines source
  let total := USize.ofNat lines.length
  if line = 0 || total < line then some []
  else do
    let last := min (← add? line 2) total
    let width := (Decimal.natText last.toNat).length
    let shown ← (wordsFromTo (max (subOrZero line 2) 1) last).mapM
      (rowInWords? lines width line column)
    return rule width ++ shown.flatten ++ rule width

variable {a b first last line number : USize} {n : Nat} {lines : List (List Char)}

theorem add?_eq_some
    (h : a.toNat + b.toNat < USize.size) :
    ∃ c, add? a b = some c ∧ c.toNat = a.toNat + b.toNat := by
  refine ⟨a + b, if_pos h, ?_⟩
  rw [USize.toNat_add]
  exact Nat.mod_eq_of_lt h

theorem sub?_eq_some
    (h : b.toNat ≤ a.toNat) :
    ∃ c, sub? a b = some c ∧ c.toNat = a.toNat - b.toNat := by
  have hle : b ≤ a := USize.le_iff_toNat_le.mpr h
  exact ⟨a - b, if_pos hle, USize.toNat_sub_of_le a b hle⟩

theorem toNat_subOrZero (a b : USize) : (subOrZero a b).toNat = a.toNat - b.toNat := by
  unfold subOrZero
  split_ifs with h
  · exact USize.toNat_sub_of_le a b h
  · rw [USize.le_iff_toNat_le] at h
    have hzero : (0 : USize).toNat = 0 := rfl
    omega

theorem toNat_max (a b : USize) : (max a b).toNat = max a.toNat b.toNat := by
  have hmax : max a b = if a ≤ b then b else a := rfl
  rw [hmax]
  split_ifs with h
  · exact (max_eq_right (USize.le_iff_toNat_le.mp h)).symm
  · rw [USize.le_iff_toNat_le] at h
    exact (max_eq_left (by omega)).symm

theorem toNat_min (a b : USize) : (min a b).toNat = min a.toNat b.toNat := by
  have hmin : min a b = if a ≤ b then a else b := rfl
  rw [hmin]
  split_ifs with h
  · exact (min_eq_left (USize.le_iff_toNat_le.mp h)).symm
  · rw [USize.le_iff_toNat_le] at h
    exact (min_eq_right (by omega)).symm

theorem map_toNat_wordsFromTo (first last : USize) :
    (wordsFromTo first last).map USize.toNat =
      List.range' first.toNat (last.toNat + 1 - first.toNat) := by
  rw [wordsFromTo, List.map_map]
  refine (List.map_congr_left fun i hi => ?_).trans (List.map_id _)
  have hlast := last.toNat_lt_size
  rw [List.mem_range'_1] at hi
  exact USize.toNat_ofNat_of_lt' (by omega)

theorem mapM_eq_some_map
    {α β : Type} {f : α → Option β} {g : α → β} {xs : List α}
    (h : ∀ x ∈ xs, f x = some (g x)) :
    xs.mapM f = some (xs.map g) := by
  induction xs with
  | nil => rfl
  | cons x xs ih =>
      obtain ⟨hx, hxs⟩ := List.forall_mem_cons.mp h
      rw [List.mapM_cons, hx, ih hxs]
      rfl

/-- The line with a number is found, and its rows are the ones that are shown. -/
theorem rowInWords?_eq_some
    (hpos : 1 ≤ number.toNat)
    (hle : number.toNat ≤ lines.length)
    (width : Nat)
    (line : USize)
    (column : Nat) :
    rowInWords? lines width line column number =
      some ((rowsAt lines width line.toNat column number.toNat).flatMap (· ++ ['\n'])) := by
  obtain ⟨place, hplace, hnat⟩ := sub?_eq_some (a := number) (b := 1)
    (by rwa [USize.toNat_one])
  rw [USize.toNat_one] at hnat
  have hbound : number.toNat - 1 < lines.length := by omega
  have htext : lines[place.toNat]? = some (lines.getD (number.toNat - 1) []) := by
    rw [hnat, List.getD_eq_getElem?_getD, List.getElem?_eq_getElem hbound, Option.getD_some]
  have hcaret : (if number = line then caret width column else []) =
      (if number.toNat = line.toNat then [caretText width column] else []).flatMap
        (· ++ ['\n']) := by
    simp only [USize.toNat_inj]
    split_ifs <;> simp [caret_eq]
  simp [rowInWords?, hplace, htext, rowsAt, rowAt, hcaret, row_eq]

theorem mapM_rowInWords?
    {numbers : List USize}
    (h : ∀ i ∈ numbers.map USize.toNat, 1 ≤ i ∧ i ≤ lines.length)
    (width : Nat)
    (line : USize)
    (column : Nat) :
    ∃ shown, numbers.mapM (rowInWords? lines width line column) = some shown ∧
      shown.flatten =
        ((numbers.map USize.toNat).flatMap (rowsAt lines width line.toNat column)).flatMap
          (· ++ ['\n']) := by
  have hrow : ∀ number ∈ numbers, rowInWords? lines width line column number =
      some ((rowsAt lines width line.toNat column number.toNat).flatMap (· ++ ['\n'])) := by
    intro number hnumber
    obtain ⟨hpos, hle⟩ := h number.toNat (List.mem_map_of_mem hnumber)
    exact rowInWords?_eq_some hpos hle width line column
  refine ⟨_, mapM_eq_some_map hrow, ?_⟩
  rw [← List.flatMap_def, List.flatMap_assoc, List.flatMap_map]

theorem toNat_two : (2 : USize).toNat = 2 :=
  USize.toNat_ofNat_of_lt_32 (by decide)

theorem toNat_firstWord (line : USize) :
    (max (subOrZero line 2) 1).toNat = firstShown line.toNat := by
  rw [toNat_max, toNat_subOrZero, USize.toNat_one, toNat_two]
  rfl

/-- A text that fits into memory takes no more than half of the bytes that words can count. So its
lines can be counted in words, and two more. -/
theorem add_two_lt_size
    {source : List Char}
    (hfits : 2 * Text.byteLength source < USize.size) :
    (Text.lines source).length + 2 < USize.size := by
  have hlength := Text.length_lines_le source
  have hbytes := Text.length_le_byteLength source
  have hsize := USize.le_size
  omega

/-- **The same excerpt in words.** If the text fits into memory, counting its lines in words comes
to the same excerpt. -/
theorem inWords?_eq_some
    {source : List Char}
    (hfits : 2 * Text.byteLength source < USize.size)
    (line : USize)
    (column : Nat) :
    inWords? source line column = some (excerpt source line.toNat column) := by
  have hcount := add_two_lt_size hfits
  obtain ⟨lines, hlines⟩ : ∃ lines, Text.lines source = lines := ⟨_, rfl⟩
  rw [hlines] at hcount
  have htotal : (USize.ofNat lines.length).toNat = lines.length :=
    USize.toNat_ofNat_of_lt' (by omega)
  have houtside : (line = 0 || USize.ofNat lines.length < line) = true ↔
      line.toNat = 0 ∨ lines.length < line.toNat := by
    simp [← USize.toNat_inj, USize.lt_iff_toNat_lt, htotal]
  by_cases hempty : line.toNat = 0 ∨ lines.length < line.toNat
  · have hnil := (excerpt_eq_nil_iff source line.toNat column).mpr (hlines ▸ hempty)
    simp only [inWords?, hlines, if_pos (houtside.mpr hempty), hnil]
  · -- the sum is formed for a line that is there, so that it is a word
    obtain ⟨sum, hsum, hsumNat⟩ := add?_eq_some (a := line) (b := 2)
      (by rw [toNat_two]; omega)
    obtain ⟨last, hlast⟩ : ∃ last, last = min sum (USize.ofNat lines.length) := ⟨_, rfl⟩
    have hlastNat : last.toNat = lastShown lines.length line.toNat := by
      rw [hlast, toNat_min, hsumNat, htotal, toNat_two]
      rfl
    have hnumbers : (wordsFromTo (max (subOrZero line 2) 1) last).map USize.toNat =
        numbersShown lines.length line.toNat := by
      rw [map_toNat_wordsFromTo, toNat_firstWord, hlastNat, numbersShown]
    have hinside : ∀ i ∈ (wordsFromTo (max (subOrZero line 2) 1) last).map USize.toNat,
        1 ≤ i ∧ i ≤ lines.length := by
      intro i hi
      obtain ⟨hpos, hle, -⟩ :=
        ((window_numbersShown lines.length line.toNat).mem_iff i).mp (hnumbers ▸ hi)
      exact ⟨hpos, hle⟩
    obtain ⟨width, hwidth⟩ : ∃ width, width = (Decimal.natText last.toNat).length := ⟨_, rfl⟩
    obtain ⟨shown, hrows, hshown⟩ := mapM_rowInWords? hinside width line column
    have hexcerpt := excerpt_eq_rowsAt hlines (by omega) (by omega) (hlastNat ▸ hwidth) column
    rw [← hnumbers] at hexcerpt
    simp only [inWords?, hlines, if_neg (houtside.not.mpr hempty), hsum, Option.bind_eq_bind,
      Option.bind_some, ← hlast, ← hwidth, hrows, Option.pure_def]
    rw [hexcerpt, hshown, rule_eq]
    simp

end Words

end Excerpt

/-- **The window.** An excerpt is empty if and only if the text has no such line. If it has, the
excerpt has a rule, a row for each line from two above to two below that there is, in order and once
each, the caret right below the row of the line itself, and the rule again. A row has the number of
its line, right up against the bar of a gutter that is as wide as the last number shown, and behind
the bar the line as it is; the caret is as far behind the bar as the column says. For a text that
fits into memory, machine words count all this without an overflow, and no line is missed. -/
theorem excerpt_window (source : List Char) :
    let lines := Text.lines source
    (∀ line column, excerpt source line column = [] ↔ line = 0 ∨ lines.length < line) ∧
    (∀ line column, 1 ≤ line → line ≤ lines.length →
      ∃ (shown : List Nat) (last width : Nat) (row : Nat → List Char) (caret : List Char),
        Excerpt.Window lines.length line shown ∧
        shown.getLast? = some last ∧
        width = (Decimal.natText last).length ∧
        (excerpt source line column).splitOn '\n' =
          Excerpt.ruleText width ::
            shown.flatMap (fun i => row i :: if i = line then [caret] else []) ++
              [Excerpt.ruleText width, []] ∧
        (∀ i ∈ shown, ∃ text gap, lines[i - 1]? = some text ∧
          gap + (Decimal.natText i).length = width ∧
          row i = List.replicate gap ' ' ++ Decimal.natText i ++ " | ".toList ++ text ∧
          (row i).drop (width + 3) = text) ∧
        caret = List.replicate width ' ' ++ " | ".toList ++ List.replicate column ' ' ++ ['^'] ∧
        ∀ k, caret[k]? = some '^' ↔ k = width + 3 + column) ∧
    (2 * Text.byteLength source < USize.size → ∀ (line : USize) (column : Nat),
      Excerpt.inWords? source line column = some (excerpt source line.toNat column)) := by
  intro lines
  refine ⟨Excerpt.excerpt_eq_nil_iff source, ?_, Excerpt.inWords?_eq_some⟩
  intro line column hline hle
  obtain ⟨width, hwidth⟩ : ∃ width,
      width = (Decimal.natText (Excerpt.lastShown lines.length line)).length := ⟨_, rfl⟩
  refine ⟨Excerpt.numbersShown lines.length line, Excerpt.lastShown lines.length line, width,
    Excerpt.rowAt lines width, Excerpt.caretText width column,
    Excerpt.window_numbersShown lines.length line, Excerpt.getLast?_numbersShown hline hle, hwidth,
    Excerpt.splitOn_excerpt hline hle hwidth column, ?_, rfl,
    Excerpt.getElem?_caretText_eq_some_iff width column⟩
  intro i hi
  exact Excerpt.exists_rowAt hi hwidth

/-- The last line but one of ten, whose number is narrower than the gutter. -/
theorem excerpt_window_ninth :
    let source := "a\nb\nc\nd\ne\nf\ng\nh\ni\nj".toList
    2 * Text.byteLength source < USize.size ∧
      Excerpt.inWords? source 9 1 =
        some "---|--\n 7 | g\n 8 | h\n 9 | i\n   |  ^\n10 | j\n---|--\n".toList := by
  intro source
  have hfits : 2 * Text.byteLength source < USize.size :=
    lt_of_lt_of_le (by decide : 2 * Text.byteLength source < 2 ^ 32) USize.le_size
  have hline : (9 : USize).toNat = 9 := USize.toNat_ofNat_of_lt_32 (by decide)
  have hexcerpt : excerpt "a\nb\nc\nd\ne\nf\ng\nh\ni\nj".toList 9 1 =
      "---|--\n 7 | g\n 8 | h\n 9 | i\n   |  ^\n10 | j\n---|--\n".toList := by
    decide +kernel
  obtain ⟨-, -, hwords⟩ := excerpt_window source
  refine ⟨hfits, (hwords hfits 9 1).trans ?_⟩
  rw [hline, hexcerpt]

end TokenStream
