import TokenStream.Proofs.Restart
import TokenStream.Proofs.RoundTrip

/-!
# Texts joined by a newline

No spelling and no comment goes on behind a newline, and only a string without a closing mark
would take it in. So a text that is read to its end without such a string can be put in front of
another one, with a newline between them: its tokens come first, and the other text is read as if
it stood alone, on later lines.

**Results** a trailer with a newline behind it is a separator, and a spelling that ends at the end
of a text ends in front of a newline; from there, search by search, the joined text is read as its
first part, and then as its second part with all places moved down.
-/

namespace TokenStream

def Event.isStringUnclosed : Event → Bool
  | stringUnclosed _ => true
  | _ => false

/-- Reading met the end of the text inside a string. -/
def Reading.endsInString (reading : Reading) : Bool :=
  reading.events.any Event.isStringUnclosed

/-- The newline ends the comment that a trailer may end with. -/
theorem Trailer.separator_append_newline
    {w : List Char}
    (h : Trailer w) :
    Separator (w ++ ['\n']) := by
  cases h with
  | separator hw => exact hw.append (.blank rfl .empty)
  | @comment w body hw hbody =>
      rw [List.append_assoc]
      exact hw.append (.comment hbody .empty)

/-- A newline behind a text makes no spelling in it longer. -/
theorem EndsBefore.append_newline
    {t : Token} {l rest : List Char}
    (h : EndsBefore t l rest)
    (back : List Char) :
    EndsBefore t l (rest ++ '\n' :: back) := by
  cases rest with
  | nil =>
      rintro a ⟨⟩
      exact continues_eq_false_of_opensTrivia rfl l t
  | cons b rest => exact h

namespace Reader

variable {c d : Cursor}

/-- Cursors from which the same is found are read alike. -/
theorem readAll_eq_of_scan_eq
    (houtcome : d.scan.outcome = c.scan.outcome)
    (hcursor : d.scan.cursor = c.scan.cursor) :
    (ofCursor d).readAll.tokens = (ofCursor c).readAll.tokens ∧
      (ofCursor d).readAll.error = (ofCursor c).readAll.error := by
  match hc : c.scan.outcome with
  | .ok (some t) =>
      rw [hc] at houtcome
      obtain ⟨hctokens, hcerror⟩ := readAll_of_token hc
      obtain ⟨hdtokens, hderror⟩ := readAll_of_token houtcome
      rw [hctokens, hcerror, hdtokens, hderror, hcursor]
      exact ⟨rfl, rfl⟩
  | .ok none =>
      rw [hc] at houtcome
      obtain ⟨hctokens, hcerror⟩ := readAll_of_end hc
      obtain ⟨hdtokens, hderror⟩ := readAll_of_end houtcome
      exact ⟨hdtokens.trans hctokens.symm, hderror.trans hcerror.symm⟩
  | .error e =>
      rw [hc] at houtcome
      obtain ⟨hctokens, hcerror⟩ := readAll_of_error hc
      obtain ⟨hdtokens, hderror⟩ := readAll_of_error houtcome
      exact ⟨hdtokens.trans hctokens.symm, hderror.trans hcerror.symm⟩

theorem endsInString_of_token
    {t : Token}
    (h : c.scan.outcome = .ok (some t))
    (htail : (ofCursor c.scan.cursor).readAll.endsInString = true) :
    (ofCursor c).readAll.endsInString = true := by
  have hread : (ofCursor c).read.result = .ok (some t) := h
  rw [Reading.endsInString, events_readAll_of_read_token hread, List.any_append,
    Bool.or_eq_true]
  exact .inr htail

theorem endsInString_of_spellsOpen
    {gap value l : List Char}
    (hrest : c.rest = gap ++ l)
    (hgap : Separator gap)
    (hl : SpellsOpen value l) :
    (ofCursor c).readAll.endsInString = true := by
  obtain ⟨houtcome, -, hevents⟩ :=
    Cursor.scan_of_lexeme hrest hgap hl.opensTrivia_of_head (Lexeme.read?_of_spellsOpen hl)
  have hread : (ofCursor c).read.result = .ok (some (.string value)) := houtcome
  have hevent : .stringUnclosed value ∈ (ofCursor c).read.events := by
    have hscan := hevents (.stringUnclosed value) (List.mem_singleton_self _)
    simp [read, ofCursor, scan, hscan]
  rw [Reading.endsInString, events_readAll_of_read_token hread]
  exact List.any_eq_true.mpr ⟨_, List.mem_append_left _ hevent, rfl⟩

/-- What is read to its end without an open string is read in the same way in front of a newline,
and reading goes on behind the newline. -/
theorem readAll_append_newline
    {back : List Char}
    (hrest : d.rest = c.rest ++ '\n' :: back)
    (herror : (ofCursor c).readAll.error = none)
    (hstring : (ofCursor c).readAll.endsInString = false) :
    (ofCursor d).readAll.tokens =
        (ofCursor c).readAll.tokens ++
          (ofCursor (d.skip (c.rest.length + 1))).readAll.tokens ∧
      (ofCursor d).readAll.error =
        (ofCursor (d.skip (c.rest.length + 1))).readAll.error := by
  -- the first text gets shorter with every token; what is behind the newline stays where it is
  induction hn : c.rest.length using Nat.strong_induction_on generalizing c d with
  | _ n ih =>
      subst hn
      have hbegin := beginning c.rest
      generalize hc : c.rest = cs at hbegin hrest
      cases hbegin with
      | trailer hw =>
          have hd : d.rest = (cs ++ ['\n']) ++ back := by simp [hrest]
          obtain ⟨houtcome, hcursor⟩ :=
            Cursor.scan_separator hw.separator_append_newline hd
          obtain ⟨htokens, herror⟩ := readAll_eq_of_scan_eq houtcome hcursor
          have hnone := (readAll_of_end (Cursor.scan_of_trailer (hc ▸ hw)).1).1
          rw [List.length_append, List.length_singleton] at htokens herror
          rw [hnone, htokens, herror]
          exact ⟨rfl, rfl⟩
      | @token gap l rest t hgap hl hend =>
          have hd : d.rest = gap ++ (l ++ (rest ++ '\n' :: back)) := by simp [hrest]
          obtain ⟨hcoutcome, hccursor⟩ := Cursor.scan_of_spells hc hgap hl hend
          obtain ⟨hdoutcome, hdcursor⟩ :=
            Cursor.scan_of_spells hd hgap hl (hend.append_newline back)
          obtain ⟨hctokens, hcerror⟩ := readAll_of_token hcoutcome
          obtain ⟨hdtokens, hderror⟩ := readAll_of_token hdoutcome
          have hcbehind : c.scan.cursor.rest = rest := by simp [hccursor, hc]
          have hdbehind : d.scan.cursor.rest = rest ++ '\n' :: back := by simp [hdcursor, hd]
          have hskip : d.scan.cursor.skip (rest.length + 1) =
              d.skip ((gap ++ (l ++ rest)).length + 1) := by
            rw [hdcursor, Cursor.skip_skip]
            congr 1
            simp [Nat.add_assoc]
          have htail := ih _ (Cursor.length_scan_rest_lt hcoutcome)
            (d := d.scan.cursor) (by rw [hcbehind, hdbehind]) (hcerror ▸ herror)
            (Bool.eq_false_iff.mpr fun hends =>
              Bool.eq_false_iff.mp hstring (endsInString_of_token hcoutcome hends)) rfl
          rw [hcbehind, hskip] at htail
          rw [hctokens, hdtokens, hderror, htail.1, htail.2, List.cons_append]
          exact ⟨rfl, rfl⟩
      | openString hgap hl =>
          rw [endsInString_of_spellsOpen hc hgap hl] at hstring
          cases hstring
      | stuck hgap htrivia ha =>
          have hstuck := (readAll_of_error (Cursor.scan_of_stuck hc hgap htrivia ha).1).2
          rw [hstuck] at herror
          cases herror

end Reader

/-- Behind a text and a newline, lines are counted on, columns begin anew, and offsets are counted
on. -/
theorem Position.seenFrom_behind_newline (first : List Char) (p : Position) :
    (start.advanceBy (first ++ ['\n'])).seenFrom p =
      ⟨p.line + 1 + first.count '\n', p.column, p.offset + 1 + Text.byteLength first⟩ := by
  have hbase : start.advanceBy (first ++ ['\n']) =
      ⟨first.count '\n' + 2, 0, Text.byteLength first + 1⟩ := by
    have hsize : '\n'.utf8Size = 1 := rfl
    rw [start_advanceBy]
    simp [behind, Text.length_utf8, Text.byteLength_append, List.rtakeWhile_concat_neg, hsize]
    omega
  rw [hbase, seenFrom]
  split_ifs with hline
  · simp only [hline, Position.mk.injEq]
    omega
  · simp only [Position.mk.injEq, true_and]
    omega

theorem Reader.readAll_joined
    {first : List Char}
    (herror : (ofSource first).readAll.error = none)
    (hstring : (ofSource first).readAll.endsInString = false)
    (second : List Char) :
    (ofSource (first ++ '\n' :: second)).readAll.tokens =
        (ofSource first).readAll.tokens ++ (ofSource second).readAll.tokens ∧
      (ofSource (first ++ '\n' :: second)).readAll.error =
        (ofSource second).readAll.error.map
          (LexError.seenFrom (Position.start.advanceBy (first ++ ['\n']))) := by
  have hskip : (Cursor.ofSource (first ++ '\n' :: second)).skip (first.length + 1) =
      ⟨first ++ '\n' :: second, second, Position.start.advanceBy (first ++ ['\n'])⟩ := by
    have hrest : (Cursor.ofSource (first ++ '\n' :: second)).rest =
        (first ++ ['\n']) ++ second := by
      simp [Cursor.ofSource]
    have h := Cursor.skip_length_append _ hrest
    rwa [List.length_append, List.length_singleton] at h
  obtain ⟨htokens, hbehind⟩ :=
    readAll_append_newline (c := Cursor.ofSource first)
      (d := Cursor.ofSource (first ++ '\n' :: second)) rfl herror hstring
  have halike := (alike_ofCursor
    ⟨first ++ '\n' :: second, second, Position.start.advanceBy (first ++ ['\n'])⟩).readAll
  rw [show (Cursor.ofSource first).rest.length = first.length from rfl, hskip]
    at htokens hbehind
  exact ⟨htokens.trans (by rw [halike.tokens_eq]; rfl), hbehind.trans halike.error_eq⟩

/-- **Joining.** Put a text that is read to its end, and not to the end of an open string, in front
of another one, with a newline between them. Then its tokens are followed by those of the other
text, and the error in the other text, if there is one, is met behind them, on the line that its
line has become. -/
theorem tokenize_joined
    {first : List Char} {tokens : List Token}
    (hfirst : tokenize first = .ok tokens)
    (hstring : (Reader.ofSource first).readAll.endsInString = false)
    (second : List Char) :
    (∀ more, tokenize second = .ok more →
      tokenize (first ++ '\n' :: second) = .ok (tokens ++ more)) ∧
    (∀ cause line column offset, tokenize second = .error ⟨cause, ⟨line, column, offset⟩⟩ →
      tokenize (first ++ '\n' :: second) =
        .error ⟨cause, ⟨line + 1 + first.count '\n', column,
          offset + 1 + Text.byteLength first⟩⟩) ∧
    (Reader.ofSource (first ++ '\n' :: second)).readAll.tokens =
      tokens ++ (Reader.ofSource second).readAll.tokens := by
  obtain ⟨herror, rfl⟩ := Reading.result_eq_ok_iff.mp hfirst
  obtain ⟨htokens, hjoined⟩ := Reader.readAll_joined herror hstring second
  refine ⟨?_, ?_, htokens⟩
  · intro more hsecond
    obtain ⟨hnone, rfl⟩ := Reading.result_eq_ok_iff.mp hsecond
    exact Reading.result_eq_ok_iff.mpr ⟨by rw [hjoined, hnone]; rfl, htokens⟩
  · intro cause line column offset hsecond
    have hsome := Reading.result_eq_error_iff.mp hsecond
    refine Reading.result_eq_error_iff.mpr ?_
    rw [hjoined, hsome, Option.map_some, LexError.seenFrom, Position.seenFrom_behind_newline]

theorem tokenize_joined_comment_string :
    tokenize ['i', 'f', ' ', '#', '"'] = .ok [.keyword .ifWord] ∧
    (Reader.ofSource ['i', 'f', ' ', '#', '"']).readAll.endsInString = false ∧
    tokenize ['"', 'λ', '\n', '"', '@'] = .error ⟨.unexpected '@', ⟨2, 1, 5⟩⟩ ∧
    tokenize ['i', 'f', ' ', '#', '"', '\n', '"', 'λ', '\n', '"', '@'] =
      .error ⟨.unexpected '@', ⟨3, 1, 11⟩⟩ ∧
    (Reader.ofSource ['i', 'f', ' ', '#', '"', '\n', '"', 'λ', '\n', '"', '@']).readAll.tokens =
      [.keyword .ifWord, .string ['λ', '\n']] := by
  have hfirst : tokenize ['i', 'f', ' ', '#', '"'] = .ok [.keyword .ifWord] := by
    decide +kernel
  have hstring : (Reader.ofSource ['i', 'f', ' ', '#', '"']).readAll.endsInString = false := by
    decide +kernel
  have hsecond : tokenize ['"', 'λ', '\n', '"', '@'] =
      .error ⟨.unexpected '@', ⟨2, 1, 5⟩⟩ := by
    decide +kernel
  have hbefore : (Reader.ofSource ['"', 'λ', '\n', '"', '@']).readAll.tokens =
      [.string ['λ', '\n']] := by
    decide +kernel
  obtain ⟨-, hjoined, htokens⟩ :=
    tokenize_joined hfirst hstring ['"', 'λ', '\n', '"', '@']
  rw [hbefore] at htokens
  exact ⟨hfirst, hstring, hsecond, hjoined _ 2 1 5 hsecond, htokens⟩

end TokenStream
