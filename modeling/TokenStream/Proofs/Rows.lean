import TokenStream.Excerpt
import TokenStream.Proofs.Lines
import TokenStream.Proofs.ReadBack

/-!
# The rows of an excerpt

An excerpt is a text of ended rows: a rule, the lines that are shown with their numbers, and the
rule again. The row of a line holds the line as it is behind the gutter, and the caret is below the
row of its own line.

**Input** a text and the number of one of its lines.

**Results** the rows one by one, none of which holds a newline; the place of a character in its row
and of the caret in the row below; and the two rows of the line, one right below the other.
-/

namespace TokenStream

namespace Excerpt

section Rows

variable {width line column number : Nat} {texts : List (List Char)}

/-- The row of a line, without its newline. -/
def rowText (width number : Nat) (text : List Char) : List Char :=
  padLeft width (Decimal.natText number) ++ " | ".toList ++ text

def caretText (width column : Nat) : List Char :=
  List.replicate width ' ' ++ " | ".toList ++ List.replicate column ' ' ++ ['^']

def ruleText (width : Nat) : List Char :=
  List.replicate (width + 1) '-' ++ "|--".toList

/-- The rows of lines from a number on, one by one. -/
def rowTexts (width line column : Nat) : Nat → List (List Char) → List (List Char)
  | _, [] => []
  | number, text :: rest =>
    rowText width number text :: (if number = line then [caretText width column] else []) ++
      rowTexts width line column (number + 1) rest

theorem row_eq (width number : Nat) (text : List Char) :
    row width number text = rowText width number text ++ ['\n'] := rfl

theorem caret_eq (width column : Nat) :
    caret width column = caretText width column ++ ['\n'] := by
  simp [caret, caretText]

theorem rule_eq (width : Nat) :
    rule width = ruleText width ++ ['\n'] := by
  simp [rule, ruleText]

theorem rows_eq_flatMap (width line column number : Nat) (texts : List (List Char)) :
    rows width line column number texts =
      (rowTexts width line column number texts).flatMap (· ++ ['\n']) := by
  induction texts generalizing number with
  | nil => rfl
  | cons text texts ih =>
      rw [rows, rowTexts, ih, row_eq, caret_eq]
      split <;> simp

theorem rowTexts_append (width line column number : Nat) (xs ys : List (List Char)) :
    rowTexts width line column number (xs ++ ys) =
      rowTexts width line column number xs ++
        rowTexts width line column (number + xs.length) ys := by
  induction xs generalizing number with
  | nil => rfl
  | cons x xs ih =>
      rw [List.cons_append, rowTexts, rowTexts, ih, List.length_cons, List.append_assoc,
        Nat.add_assoc, Nat.add_comm 1]

theorem newline_notMem_natText (n : Nat) :
    '\n' ∉ Decimal.natText n := fun h =>
  ne_of_class (Decimal.isDigit_of_mem_natText h) (by decide) rfl

theorem newline_notMem_padLeft (width number : Nat) :
    '\n' ∉ padLeft width (Decimal.natText number) := by
  rw [padLeft, List.mem_append, not_or]
  exact ⟨fun h => absurd (List.eq_of_mem_replicate h) (by decide), newline_notMem_natText number⟩

theorem newline_notMem_rowTexts
    (h : ∀ text ∈ texts, '\n' ∉ text) :
    ∀ row ∈ rowTexts width line column number texts, '\n' ∉ row := by
  induction texts generalizing number with
  | nil => simp [rowTexts]
  | cons text texts ih =>
      obtain ⟨htext, hrest⟩ := List.forall_mem_cons.mp h
      have hpad := newline_notMem_padLeft width number
      have hrow : '\n' ∉ rowText width number text := by
        simp [rowText, hpad, htext]
      have hcaret : '\n' ∉ caretText width column := by
        simp [caretText]
      rw [rowTexts]
      intro row hmem
      rcases List.mem_append.mp hmem with hfirst | hlater
      · split at hfirst
        · simp only [List.mem_cons, List.not_mem_nil, or_false] at hfirst
          rcases hfirst with rfl | rfl
          · exact hrow
          · exact hcaret
        · rw [List.mem_singleton.mp hfirst]
          exact hrow
      · exact ih hrest row hlater

/-- A field that is wide enough for a number is as wide as it is asked to be. -/
theorem length_padLeft
    {cs : List Char}
    (h : cs.length ≤ width) :
    (padLeft width cs).length = width := by
  rw [padLeft, List.length_append, List.length_replicate]
  omega

theorem length_natText_le
    {n m : Nat}
    (h : n ≤ m) :
    (Decimal.natText n).length ≤ (Decimal.natText m).length := by
  have hpos : 0 < (Decimal.natText m).length := Nat.length_toDigits_pos
  have hm : m < 10 ^ (Decimal.natText m).length :=
    (Nat.length_toDigits_le_iff (by decide) hpos).mp le_rfl
  exact (Nat.length_toDigits_le_iff (by decide) hpos).mpr (by omega)

/-- Behind the gutter of its row, a line stands as it is. -/
theorem getElem?_rowText
    (h : (Decimal.natText number).length ≤ width)
    (text : List Char)
    (column : Nat) :
    (rowText width number text)[width + 3 + column]? = text[column]? := by
  have hlength : (padLeft width (Decimal.natText number) ++ " | ".toList).length = width + 3 := by
    rw [List.length_append, length_padLeft h]
    rfl
  rw [rowText, List.getElem?_append_right (by omega), hlength, Nat.add_sub_cancel_left]

theorem length_rowText
    (h : (Decimal.natText number).length ≤ width)
    (text : List Char) :
    (rowText width number text).length = width + 3 + text.length := by
  rw [rowText, List.length_append, List.length_append, length_padLeft h]
  rfl

/-- The caret stands in one place of its row. -/
theorem getElem?_caretText_eq_some_iff (width column k : Nat) :
    (caretText width column)[k]? = some '^' ↔ k = width + 3 + column := by
  have hlength : (List.replicate width ' ' ++ " | ".toList ++
      List.replicate column ' ').length = width + 3 + column := by
    simp
    omega
  have hblank : '^' ∉ List.replicate width ' ' ++ " | ".toList ++ List.replicate column ' ' := by
    simp
  rw [caretText, ← hlength]
  generalize List.replicate width ' ' ++ " | ".toList ++ List.replicate column ' ' = blanks at *
  constructor
  · intro h
    rcases Nat.lt_or_ge k blanks.length with hlt | hge
    · rw [List.getElem?_append_left hlt] at h
      exact absurd (List.mem_of_getElem? h) hblank
    · have hbound := (List.getElem?_eq_some_iff.mp h).1
      rw [List.length_append, List.length_singleton] at hbound
      omega
  · rintro rfl
    exact List.getElem?_concat_length

end Rows

section Frame

variable {source : List Char} {line first last width : Nat} {rows : List (List Char)}

/-- An excerpt is its rows between two rules, ended one by one. -/
theorem excerpt_eq_framed
    (hline : 1 ≤ line)
    (hle : line ≤ (Text.lines source).length)
    (hfirst : first = max (line - margin) 1)
    (hlast : last = min (line + margin) (Text.lines source).length)
    (hwidth : width = (Decimal.natText last).length)
    (column : Nat) :
    excerpt source line column =
      (ruleText width ::
        rowTexts width line column first
          (((Text.lines source).drop (first - 1)).take (last + 1 - first)) ++
        [ruleText width]).flatMap (· ++ ['\n']) := by
  have hinside : ¬ (line = 0 || (Text.lines source).length < line) = true := by
    simp only [Bool.or_eq_true, decide_eq_true_eq]
    omega
  subst hfirst hlast hwidth
  simp only [excerpt, if_neg hinside, rule_eq, rows_eq_flatMap, List.flatMap_cons,
    List.flatMap_append, List.flatMap_nil, List.append_nil, List.cons_append, List.append_assoc]

theorem splitOn_framed
    (h : ∀ row ∈ rows, '\n' ∉ row)
    (width : Nat) :
    ((ruleText width :: rows ++ [ruleText width]).flatMap (· ++ ['\n'])).splitOn '\n' =
      ruleText width :: rows ++ [ruleText width, []] := by
  have hrule : '\n' ∉ ruleText width := by
    simp [ruleText]
  have hall : ∀ row ∈ ruleText width :: rows ++ [ruleText width], '\n' ∉ row :=
    List.forall_mem_append.mpr
      ⟨List.forall_mem_cons.mpr ⟨hrule, h⟩, List.forall_mem_singleton.mpr hrule⟩
  rw [Text.splitOn_flatMap_ended, Text.flatMap_splitOn hall, List.map_id', List.append_assoc]
  rfl

end Frame

/-- The rows of an excerpt, with the lines that are shown taken apart around one of them. -/
theorem excerpt_eq_flatMap
    {source text : List Char} {line : Nat}
    (hline : 1 ≤ line)
    (htext : (Text.lines source)[line - 1]? = some text)
    (column : Nat) :
    ∃ (first last : Nat) (before after : List (List Char)),
      line ≤ last ∧
      first + before.length = line ∧
      (∀ shown ∈ before ++ text :: after, '\n' ∉ shown) ∧
      let width := (Decimal.natText last).length
      excerpt source line column =
        (ruleText width :: rowTexts width line column first (before ++ text :: after) ++
          [ruleText width]).flatMap (· ++ ['\n']) := by
  obtain ⟨hbound, -⟩ := List.getElem?_eq_some_iff.mp htext
  obtain ⟨first, hfirst⟩ : ∃ first, first = max (line - margin) 1 := ⟨_, rfl⟩
  obtain ⟨last, hlast⟩ : ∃ last, last = min (line + margin) (Text.lines source).length := ⟨_, rfl⟩
  obtain ⟨shown, hshown⟩ : ∃ shown,
      shown = ((Text.lines source).drop (first - 1)).take (last + 1 - first) := ⟨_, rfl⟩
  have hplace : shown[line - first]? = some text := by
    rw [hshown, List.getElem?_take_of_lt (by omega), List.getElem?_drop, ← htext]
    congr 1
    omega
  obtain ⟨hlt, hget⟩ := List.getElem?_eq_some_iff.mp hplace
  have hsplit : shown = shown.take (line - first) ++ text :: shown.drop (line - first + 1) := by
    rw [← hget, ← List.drop_eq_getElem_cons, List.take_append_drop]
  refine ⟨first, last, shown.take (line - first), shown.drop (line - first + 1),
    by omega, ?_, ?_, ?_⟩
  · rw [List.length_take_of_le hlt.le]
    omega
  · rw [← hsplit]
    intro row hrow
    rw [hshown] at hrow
    exact Text.newline_notMem_lines source row (List.mem_of_mem_drop (List.mem_of_mem_take hrow))
  · rw [← hsplit, hshown]
    exact excerpt_eq_framed hline (by omega) hfirst hlast rfl column

/-- **The rows of an excerpt.** The row of the line stands right above the caret, and the gutter is
wide enough for its number. -/
theorem exists_excerpt_rows
    {source text : List Char} {line : Nat}
    (hline : 1 ≤ line)
    (htext : (Text.lines source)[line - 1]? = some text)
    (column : Nat) :
    ∃ (width : Nat) (above below : List (List Char)),
      (Decimal.natText line).length ≤ width ∧
      (excerpt source line column).splitOn '\n' =
        above ++ rowText width line text :: caretText width column :: below ++ [[]] := by
  obtain ⟨first, last, before, after, hlast, hbefore, hshown, hexcerpt⟩ :=
    excerpt_eq_flatMap hline htext column
  have hwidth := length_natText_le hlast
  generalize (Decimal.natText last).length = width at hwidth hexcerpt
  refine ⟨width, ruleText width :: rowTexts width line column first before,
    rowTexts width line column (line + 1) after ++ [ruleText width], hwidth, ?_⟩
  rw [hexcerpt, splitOn_framed (newline_notMem_rowTexts hshown), rowTexts_append, hbefore,
    rowTexts, if_pos rfl]
  simp

end Excerpt

end TokenStream
