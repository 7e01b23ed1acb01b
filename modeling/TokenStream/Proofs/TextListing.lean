import TokenStream.Proofs.Decoding
import TokenStream.Proofs.Lines

/-!
# Listings in the text format, line by line

The text format has a line for each token, but the text of a string may hold newlines, which are
written as they are. No other token has a newline in its text.

**Input** a text that is read without an error.

**Results** how many newlines the line of a token holds, and with it how many lines a listing has;
it has one line a token exactly if no string holds a newline.
-/

namespace TokenStream

/-- How many newlines are written inside the line of the token. -/
def Token.breaks : Token → Nat
  | string value => value.count '\n'
  | _ => 0

section Breaks

theorem count_newline_escape (value : List Char) :
    (Text.escape value).count '\n' = value.count '\n' := by
  have hmark : escapeMark ≠ '\n' := by decide
  induction value with
  | nil => rfl
  | cons c value ih =>
      unfold Text.escape
      split
      · rw [List.count_cons_of_ne hmark, List.count_cons, List.count_cons, ih]
      · rw [List.count_cons, List.count_cons, ih]

/-- A numeral has digits and a point. -/
theorem Decimal.Numeral.Lawful.mem_spelling
    {n : Decimal.Numeral} {c : Char}
    (h : n.Lawful)
    (hc : c ∈ n.spelling) :
    isDigit c = true ∨ c = '.' := by
  cases hfraction : n.fraction with
  | none =>
      simp only [spelling, hfraction] at hc
      exact .inl (h.whole_digits c hc)
  | some digits =>
      simp only [spelling, hfraction, List.mem_append, List.mem_cons] at hc
      rcases hc with hwhole | hpoint | hdigits
      · exact .inl (h.whole_digits c hwhole)
      · exact .inr hpoint
      · exact .inl (h.fraction_digits digits hfraction c hdigits)

/-- Only the text of a string holds newlines. -/
theorem Token.WellFormed.count_newline_text
    {t : Token}
    (h : t.WellFormed) :
    t.text.count '\n' = t.breaks := by
  cases t with
  | punctuation p => cases p <;> rfl
  | keyword k => cases k <;> rfl
  | string value =>
      have hmark : stringMark ≠ '\n' := by decide
      simp [Token.text, Text.quote, Token.breaks, hmark, count_newline_escape]
  | identifier w =>
      refine List.count_eq_zero_of_not_mem fun hmem => ?_
      exact ne_of_class (h.1.forall_isIdentRest _ hmem) (by decide) rfl
  | operator w =>
      refine List.count_eq_zero_of_not_mem fun hmem => ?_
      exact ne_of_class (h.2 _ hmem) (by decide) rfl
  | number x =>
      refine List.count_eq_zero_of_not_mem fun hmem => ?_
      cases hinfinite : x.isInfinite with
      | true =>
          rw [Listing.eq_infinity h hinfinite, Token.text, Listing.text_infinity] at hmem
          revert hmem
          decide
      | false =>
          obtain ⟨n, hn, hspelling, -⟩ := Decimal.exists_numeral_plain h.1 hinfinite h.2
          rw [Token.text, ← hspelling] at hmem
          rcases hn.mem_spelling hmem with hdigit | hpoint
          · exact ne_of_class hdigit (by decide) rfl
          · exact absurd hpoint (by decide)

/-- The field in front of the text has no newline. -/
theorem Token.count_newline_line (t : Token) :
    t.line.count '\n' = t.text.count '\n' := by
  cases t <;> simp [Token.line, Token.tag]

end Breaks

/-- **The lines of a listing.** A listing in the text format has one line for each token and one
more for each newline in a string. So there are as many lines as tokens, and each is the line of its
token, exactly if no string holds a newline. -/
theorem text_listing_lines
    {source : List Char} {tokens : List Token}
    (h : tokenize source = .ok tokens) :
    ∃ out rows,
      (list source .text (Sink.empty none)).outcome = .ok tokens.length ∧
      (list source .text (Sink.empty none)).sink.contents = Text.utf8 out ∧
      out.splitOn '\n' = rows ++ [[]] ∧
      rows = tokens.flatMap (fun t => t.line.splitOn '\n') ∧
      rows.length = tokens.length + (tokens.map Token.breaks).sum ∧
      (rows.length = tokens.length ↔ ∀ value, .string value ∈ tokens → '\n' ∉ value) ∧
      (rows = tokens.map Token.line ↔ ∀ value, .string value ∈ tokens → '\n' ∉ value) := by
  have hbreaks : ∀ t ∈ tokens, t.line.count '\n' = t.breaks := by
    obtain ⟨d, hlawful, -, rfl⟩ := Division.exists_lawful_of_tokenize h
    intro t ht
    rw [t.count_newline_line, (hlawful.wellFormed t ht).count_newline_text]
  have hlength : (tokens.flatMap fun t => t.line.splitOn '\n').length =
      tokens.length + (tokens.map Token.breaks).sum := by
    rw [Text.length_flatMap_splitOn, List.map_congr_left hbreaks]
  have hnone : (tokens.map Token.breaks).sum = 0 ↔
      ∀ value, .string value ∈ tokens → '\n' ∉ value := by
    rw [List.sum_eq_zero_iff, List.forall_mem_map]
    constructor
    · intro hzero value hvalue
      exact List.count_eq_zero.mp (hzero _ hvalue)
    · intro hstrings t ht
      cases t with
      | string value => exact List.count_eq_zero_of_not_mem (hstrings value ht)
      | _ => rfl
  refine ⟨Listing.lines tokens, _, ?_, Listing.output_of_tokenize h .text,
    Text.splitOn_flatMap_ended Token.line tokens, rfl, hlength, ?_, ?_⟩
  · rw [Listing.outcome_eq, h]
  · rw [hlength, ← hnone]
    omega
  · constructor
    · intro hrows
      rw [hrows, List.length_map] at hlength
      exact hnone.mp (by omega)
    · intro hstrings
      apply Text.flatMap_splitOn
      intro t ht
      have hzero : t.breaks = 0 :=
        List.sum_eq_zero_iff.mp (hnone.mpr hstrings) _ (List.mem_map_of_mem ht)
      exact List.count_eq_zero.mp ((hbreaks t ht).trans hzero)

/-- Two strings on two lines of a source, with no newline in either. -/
theorem text_listing_lines_strings :
    tokenize ['"', 'a', '"', '\n', '"', '"'] = .ok [.string ['a'], .string []] ∧
    ∃ out rows,
      (list ['"', 'a', '"', '\n', '"', '"'] .text (Sink.empty none)).sink.contents =
        Text.utf8 out ∧
      out.splitOn '\n' = rows ++ [[]] ∧
      rows = [Token.string ['a'], Token.string []].map Token.line := by
  have h : tokenize ['"', 'a', '"', '\n', '"', '"'] = .ok [.string ['a'], .string []] := by
    decide +kernel
  obtain ⟨out, rows, -, hcontents, hsplit, -, -, -, hlines⟩ := text_listing_lines h
  refine ⟨h, out, rows, hcontents, hsplit, hlines.mpr ?_⟩
  intro value hvalue
  simp only [List.mem_cons, Token.string.injEq, List.not_mem_nil, or_false] at hvalue
  rcases hvalue with rfl | rfl
  · decide
  · decide

/-- One string over two lines of a source makes two lines of a listing that is of one token. -/
theorem text_listing_broken_string :
    tokenize ['"', 'a', '\n', 'b', '"'] = .ok [.string ['a', '\n', 'b']] ∧
    (list ['"', 'a', '\n', 'b', '"'] .text (Sink.empty none)).outcome = .ok 1 ∧
    ∃ out,
      (list ['"', 'a', '\n', 'b', '"'] .text (Sink.empty none)).sink.contents = Text.utf8 out ∧
      out.splitOn '\n' = ["str   \"a".toList, "b\"".toList, []] ∧
      out.splitOn '\n' ≠ [Token.string ['a', '\n', 'b']].map Token.line ++ [[]] := by
  have h : tokenize ['"', 'a', '\n', 'b', '"'] = .ok [.string ['a', '\n', 'b']] := by
    decide +kernel
  refine ⟨h, by decide +kernel, "str   \"a\nb\"\n".toList, ?_, by decide, by decide⟩
  exact Listing.output_of_tokenize h .text

end TokenStream
