import TokenStream.Proofs.Rows
import TokenStream.Proofs.Trace

/-!
# The caret of an error

The place of an error is counted while the text is read; the excerpt that is shown with it takes the
lines of the text apart once more. The two agree, so that the caret stands under the character that
starts no token.

**Input** a text that is not read to its end.

**Algorithm** the front part of the text before the character is cut behind its last newline. The
first part falls into whole lines, one for each newline in it, and the second begins the line on
which the character stands. A carriage return in front of a newline is the only character of a line
that is not shown.

**Results** what is known of the character at the place of an error, the line on which it stands,
and the caret under it.
-/

namespace TokenStream

section Errors

variable {front ahead : List Char} {found : List Found} {finish : Finish} {e : LexError}

/-- An error at the end of a course is about a character of the text, and at its place. -/
theorem Course.exists_of_error
    (h : Course front ahead found finish)
    (herror : finish.error = some e) :
    ∃ before back c, ahead = before ++ c :: back ∧
      e = ⟨.unexpected c, Position.behind (front ++ before)⟩ ∧ opensTrivia c = false := by
  induction h with
  | @token front gap l rest _ _ _ _ _ _ _ _ ih =>
      obtain ⟨before, back, c, rfl, rfl, hc⟩ := ih herror
      exact ⟨gap ++ (l ++ before), back, c, by simp, by simp, hc⟩
  | openString _ _ => cases herror
  | ended _ => cases herror
  | @stuck front gap rest a _ _ htrivia _ =>
      cases herror
      exact ⟨gap, rest, a, rfl, rfl, htrivia⟩

theorem exists_of_tokenize_error
    {source : List Char}
    (h : tokenize source = .error e) :
    ∃ front back c, source = front ++ c :: back ∧
      e = ⟨.unexpected c, Position.behind front⟩ ∧ opensTrivia c = false := by
  obtain ⟨found, finish, hcourse⟩ := exists_course [] source
  have hreplays := hcourse.replays (Cursor.behind_ofSource source) rfl
  have hresult : finish.result found = .error e := hreplays.result_eq.symm.trans h
  cases herror : finish.error with
  | none =>
      rw [Finish.result, herror] at hresult
      cases hresult
  | some e' =>
      rw [Finish.result, herror] at hresult
      cases hresult
      simpa using hcourse.exists_of_error herror

theorem LexError.error_append_text (e : LexError) :
    "error: ".toList ++ e.text =
      "error: ".toList ++ e.message ++ " (".toList ++ Decimal.natText e.position.line ++
        ":".toList ++ Decimal.natText e.position.column ++ ")".toList := by
  have hopen : " (".toList = [' ', '('] := rfl
  have hcolon : ":".toList = [':'] := rfl
  have hclose : ")".toList = [')'] := rfl
  rw [LexError.text, hopen, hcolon, hclose]
  simp only [List.append_assoc, List.cons_append, List.nil_append]

/-- A cause in one line is shown in one line. -/
theorem LexError.newline_notMem_text
    (h : '\n' ∉ e.message) :
    '\n' ∉ "error: ".toList ++ e.text := by
  simp [LexError.text, h, Excerpt.newline_notMem_natText]

/-- The line of the place behind `front`, and where the next character stands in it. -/
theorem Text.exists_line_behind
    {c : Char}
    (hc : c ≠ '\n')
    (front back : List Char) :
    ∃ text, (lines (front ++ c :: back))[(Position.behind front).line - 1]? = some text ∧
      (¬ (c = '\r' ∧ back.head? = some '\n') →
        text[(Position.behind front).column]? = some c) ∧
      (c = '\r' ∧ back.head? = some '\n' →
        text.length = (Position.behind front).column) := by
  -- behind its last newline, `front` begins the line
  obtain ⟨whole, hwhole⟩ : ∃ whole, whole = front.rdropWhile (· ≠ '\n') := ⟨_, rfl⟩
  obtain ⟨begun, hbegun⟩ : ∃ begun, begun = front.rtakeWhile (· ≠ '\n') := ⟨_, rfl⟩
  have hfront : front = whole ++ begun := by
    rw [hwhole, hbegun, List.rdropWhile_append_rtakeWhile]
  have hended : ∀ a ∈ whole.getLast?, a = '\n' := by
    intro a ha
    obtain ⟨hne, rfl⟩ := List.mem_getLast?_eq_getLast ha
    subst hwhole
    simpa using List.rdropWhile_last_not (· ≠ '\n') front hne
  have hinside : '\n' ∉ begun := by
    intro hmem
    rw [hbegun] at hmem
    simpa using List.mem_rtakeWhile_imp hmem
  have hcount : front.count '\n' = whole.count '\n' := by
    rw [hfront, List.count_append, List.count_eq_zero_of_not_mem hinside, Nat.add_zero]
  obtain ⟨before, hlength, hbefore⟩ := exists_lines_append hended
  obtain ⟨text, after, hlines, hkept, hcut⟩ := exists_line_of_char hinside hc back
  refine ⟨text, ?_, ?_, ?_⟩
  · rw [hfront, List.append_assoc, hbefore, hlines, ← hfront, Position.behind, hcount, ← hlength]
    simp
  · simpa only [Position.behind, ← hbegun] using hkept
  · simpa only [Position.behind, ← hbegun] using hcut

end Errors

/-- **The caret.** The report of an error is its headline and an excerpt. In the excerpt the row of
the line of the error stands right above the row with the caret, and above the caret is the
character at the place of the error, which the headline names. Only a carriage return that ends its
line is not shown; the caret then stands behind the row. -/
theorem caret_under_character
    {source : List Char} {e : LexError}
    (h : tokenize source = .error e) :
    ∃ (front back : List Char) (c : Char),
      source = front ++ c :: back ∧
      e.position = Position.behind front ∧
      e.message = "Can't handle character: ".toList ++ [c] ∧
      ∃ (headline context : List Char) (above below : List (List Char))
        (shown caret text : List Char) (width k : Nat),
        headline = "error: ".toList ++ e.message ++ " (".toList ++
          Decimal.natText e.position.line ++ ":".toList ++
          Decimal.natText e.position.column ++ ")".toList ∧
        '\n' ∉ headline ∧
        e.report source = headline ++ '\n' :: context ∧
        context.splitOn '\n' = above ++ shown :: caret :: below ++ [[]] ∧
        (Text.lines source)[e.position.line - 1]? = some text ∧
        shown ++ ['\n'] = Excerpt.row width e.position.line text ∧
        caret ++ ['\n'] = Excerpt.caret width e.position.column ∧
        (∀ j, caret[j]? = some '^' ↔ j = k) ∧
        (¬ (c = '\r' ∧ back.head? = some '\n') → shown[k]? = some c) ∧
        (c = '\r' ∧ back.head? = some '\n' → shown.length = k) := by
  obtain ⟨front, back, c, rfl, rfl, hc⟩ := exists_of_tokenize_error h
  have hnewline : c ≠ '\n' := (ne_of_class (p := opensTrivia) (by decide) hc).symm
  obtain ⟨text, htext, hkept, hcut⟩ := Text.exists_line_behind hnewline front back
  have hline : 1 ≤ (Position.behind front).line := Nat.le_add_right 1 _
  obtain ⟨width, above, below, hwidth, hrows⟩ :=
    Excerpt.exists_excerpt_rows hline htext (Position.behind front).column
  obtain ⟨place, hplace⟩ : ∃ place, place = Position.behind front := ⟨_, rfl⟩
  rw [← hplace] at htext hkept hcut hline hrows hwidth ⊢
  refine ⟨front, back, c, rfl, hplace, rfl, _, excerpt (front ++ c :: back) place.line place.column,
    above, below, Excerpt.rowText width place.line text, Excerpt.caretText width place.column, text,
    width, width + 3 + place.column, rfl, ?_, ?_, hrows, htext, rfl,
    (Excerpt.caret_eq width place.column).symm,
    Excerpt.getElem?_caretText_eq_some_iff width place.column, ?_, ?_⟩
  · have hmessage : '\n' ∉ "Can't handle character: ".toList ++ [c] := by
      rw [List.mem_append, not_or, List.mem_singleton]
      exact ⟨by decide, hnewline.symm⟩
    rw [← LexError.error_append_text]
    exact LexError.newline_notMem_text hmessage
  · rw [← LexError.error_append_text]
    rfl
  · intro hshown
    rw [Excerpt.getElem?_rowText hwidth, hkept hshown]
  · intro hreturn
    rw [Excerpt.length_rowText hwidth, hcut hreturn]

example :
    LexError.report ⟨.unexpected '\r', ⟨1, 1, 1⟩⟩ ['a', '\r', '\n'] =
      "error: Can't handle character: \r (1:1)\n--|--\n1 | a\n  |  ^\n--|--\n".toList := by
  decide +kernel

/-- A character behind a string over two lines. -/
theorem caret_under_character_behind_string :
    tokenize ['"', 'a', '\n', 'b', '"', ' ', '@'] = .error ⟨.unexpected '@', ⟨2, 3, 6⟩⟩ ∧
    ∃ (context : List Char) (above below : List (List Char)) (shown caret : List Char) (k : Nat),
      LexError.report ⟨.unexpected '@', ⟨2, 3, 6⟩⟩ ['"', 'a', '\n', 'b', '"', ' ', '@'] =
        "error: Can't handle character: @ (2:3)".toList ++ '\n' :: context ∧
      context.splitOn '\n' = above ++ shown :: caret :: below ++ [[]] ∧
      shown[k]? = some '@' ∧
      ∀ j, caret[j]? = some '^' ↔ j = k := by
  have h : tokenize ['"', 'a', '\n', 'b', '"', ' ', '@'] =
      .error ⟨.unexpected '@', ⟨2, 3, 6⟩⟩ := by
    decide +kernel
  obtain ⟨front, back, c, -, -, hmessage, headline, context, above, below, shown, caret, text,
    width, k, hheadline, -, hreport, hrows, -, -, -, hcaret, hkept, -⟩ := caret_under_character h
  obtain rfl : c = '@' := by
    have hlast := congrArg List.getLast? hmessage
    rw [List.getLast?_concat] at hlast
    exact (Option.some.inj hlast).symm
  refine ⟨h, context, above, below, shown, caret, k, ?_, hrows, hkept (by simp), hcaret⟩
  rw [hreport, hheadline]
  rfl

end TokenStream
