import TokenStream.Proofs.Places

/-!
# Where a search fails

A search for a token passes over the longest run of blanks and comments. It fails exactly if a
character stands behind that run with which no token starts, and then it stays in front of this
character, so that every later search from there fails in the same way. What a string or a comment
holds is never looked at as the beginning of a token.

A numeral is taken character by character and then handed to a parser of numbers, which might
refuse it. Here the search is also stated with such a parser as a parameter: all texts that are
handed to it are digits with at most one point behind the first of them, and so a parser that
accepts these never makes a search fail.

**Results** the run of blanks and comments exists and is the only one, the failing searches are
told apart by the character behind it, and the characters that are taken for a numeral are the
spelling of the longest numeral.
-/

namespace TokenStream

/-- A run of blanks and comments in front of `rest`. A comment without a newline goes on to the end
of the text. -/
def TriviaBefore (w rest : List Char) : Prop :=
  Separator w ∨ Trailer w ∧ rest = []

/-- The longest run of blanks and comments in front of a text, and what stands behind it. -/
structure LeadingTrivia (text w rest : List Char) : Prop where
  text_eq : text = w ++ rest
  trivia : TriviaBefore w rest
  longest : ∀ v back, text = v ++ back → TriviaBefore v back → v.length ≤ w.length

/-- The characters that a numeral is taken from: digits, and one point; `point` tells that the
point has been passed. -/
def numeralRun (point : Bool) : List Char → List Char
  | [] => []
  | a :: r =>
    if a = '.' then
      if point then [] else a :: numeralRun true r
    else if isDigit a then a :: numeralRun point r
    else []

namespace Cursor

section Definitions

variable (parse : List Char → Except (List Char) Binary64)

/-- A number from a text that the parser may refuse. -/
def scanNumber (c : Cursor) : Except LexError Token × Cursor :=
  let text := numeralRun false c.rest
  let behind := c.skip text.length
  match parse text with
  | .ok x => (.ok (.number x), behind)
  | .error why =>
    (.error (behind.fail (.reported
      ("Invalid number '".toList ++ text ++ "': ".toList ++ why))), behind)

/-- The search for a token, with the parser that numerals are handed to. -/
def scanWith (c : Cursor) : Except LexError (Option Token) × Cursor :=
  let d := c.skipTrivia.2
  if d.rest.head?.any isDigit then
    let found := d.scanNumber parse
    (found.1.map some, found.2)
  else (c.scan.outcome, c.scan.cursor)

end Definitions

end Cursor

namespace LeadingTrivia

variable {text v w back rest : List Char}

theorem unique
    (h : LeadingTrivia text w rest)
    (h' : LeadingTrivia text v back) :
    v = w ∧ back = rest := by
  have hlength : v.length = w.length :=
    le_antisymm (h.longest v back h'.text_eq h'.trivia) (h'.longest w rest h.text_eq h.trivia)
  exact List.append_inj (h'.text_eq.symm.trans h.text_eq) hlength

theorem of_trailer
    (h : Trailer text) :
    LeadingTrivia text text [] := by
  refine ⟨(List.append_nil text).symm, .inr ⟨h, rfl⟩, ?_⟩
  rintro v back rfl _
  simp

/-- In front of a character that opens neither a blank nor a comment, a separator is the whole
run. -/
theorem of_separator
    {a : Char}
    (hw : Separator w)
    (ha : opensTrivia a = false) :
    LeadingTrivia (w ++ a :: rest) w (a :: rest) := by
  refine ⟨rfl, .inl hw, ?_⟩
  intro v back htext htrivia
  have htrailer : Trailer v := by
    rcases htrivia with hv | ⟨hv, _⟩
    · exact .separator hv
    · exact hv
  by_contra hlt
  -- a longer run would hold the character
  rcases List.append_eq_append_iff.mp htext with ⟨beyond, rfl, hbeyond⟩ | ⟨common, rfl, _⟩
  · cases beyond with
    | nil => simp at hlt
    | cons b beyond =>
        obtain ⟨rfl, _⟩ := List.cons.inj hbeyond
        exact Trailer.not_append_cons hw ha htrailer
  · simp at hlt

end LeadingTrivia

/-- Every text has a leading run of blanks and comments, up to its end or to a character that opens
neither. -/
theorem exists_leadingTrivia (text : List Char) :
    ∃ w rest, LeadingTrivia text w rest ∧
      (Trailer text ∧ w = text ∧ rest = [] ∨
        Separator w ∧ ∃ a back, rest = a :: back ∧ opensTrivia a = false) := by
  rcases trailer_or_separator text with htrailer | ⟨w, a, back, rfl, hw, ha⟩
  · exact ⟨text, [], .of_trailer htrailer, .inl ⟨htrailer, rfl, rfl⟩⟩
  · exact ⟨w, a :: back, .of_separator hw ha, .inr ⟨hw, a, back, rfl, ha⟩⟩

namespace Lexeme

/-- A lexeme is read wherever a token starts. -/
theorem read?_eq_none_iff (a : Char) (r : List Char) :
    read? (a :: r) = none ↔ startsToken a = false := by
  constructor
  · intro h
    rcases spells_or_startsToken_eq_false a r with ⟨t, l, rest, htext, hl, hend⟩ | ⟨value, hl⟩ | ha
    · rw [htext, read?_of_spells hl hend] at h
      cases h
    · rw [read?_of_spellsOpen hl] at h
      cases h
    · exact ha
  · intro h
    exact read?_eq_none h r

end Lexeme

namespace Cursor

variable {c : Cursor}

/-- A search fails in front of a character with which no token starts, and nowhere else. -/
theorem scan_eq_error_iff
    {w rest : List Char}
    (h : LeadingTrivia c.rest w rest)
    (e : LexError) :
    c.scan.outcome = .error e ↔
      ∃ a back, rest = a :: back ∧ startsToken a = false ∧
        e = (c.skip w.length).fail (.unexpected a) := by
  obtain ⟨v, r, hv, htrailer | hseparator⟩ := exists_leadingTrivia c.rest
  all_goals obtain ⟨rfl, rfl⟩ := h.unique hv
  · obtain ⟨hw, rfl, rfl⟩ := htrailer
    rw [(scan_of_trailer hw).1]
    simp
  · obtain ⟨hw, a, back, rfl, ha⟩ := hseparator
    cases hstarts : startsToken a with
    | false =>
        rw [(scan_of_stuck h.text_eq hw ha hstarts).1]
        constructor
        · intro herror
          obtain rfl := Except.error.inj herror
          exact ⟨a, back, rfl, hstarts, rfl⟩
        · rintro ⟨b, back', hcons, _, rfl⟩
          obtain ⟨rfl, rfl⟩ := List.cons.inj hcons
          rfl
    | true =>
        obtain ⟨x, hx⟩ : ∃ x, Lexeme.read? (a :: back) = some x := by
          rw [← Option.ne_none_iff_exists', ne_eq, Lexeme.read?_eq_none_iff, hstarts]
          decide
        have houtcome := (scan_of_lexeme h.text_eq hw (by rintro b ⟨⟩; exact ha) hx).1
        rw [houtcome]
        constructor
        · intro hok
          cases hok
        · rintro ⟨b, back', hcons, hb, _⟩
          obtain ⟨rfl, rfl⟩ := List.cons.inj hcons
          rw [hstarts] at hb
          cases hb

/-- A search that fails stops behind the blanks and comments. -/
theorem scan_cursor_of_error
    {w rest : List Char} {e : LexError}
    (h : LeadingTrivia c.rest w rest)
    (herror : c.scan.outcome = .error e) :
    c.scan.cursor = c.skip w.length := by
  obtain ⟨v, r, hv, htrailer | hseparator⟩ := exists_leadingTrivia c.rest
  all_goals obtain ⟨rfl, rfl⟩ := h.unique hv
  · obtain ⟨hw, rfl, rfl⟩ := htrailer
    exact (scan_of_trailer hw).2
  · obtain ⟨hw, a, back, rfl, ha⟩ := hseparator
    obtain ⟨b, back', hcons, hstarts, _⟩ := (scan_eq_error_iff h e).mp herror
    obtain ⟨rfl, rfl⟩ := List.cons.inj hcons
    exact (scan_of_stuck h.text_eq hw ha hstarts).2

/-- From where a search failed, every search fails in the same way and stays there. -/
theorem scan_again_of_error
    {e : LexError}
    (herror : c.scan.outcome = .error e) :
    c.scan.cursor.scan.outcome = .error e ∧ c.scan.cursor.scan.cursor = c.scan.cursor := by
  have hfinds := c.finds_scan
  rw [herror] at hfinds
  generalize c.scan.cursor = d at hfinds
  cases hfinds with
  | @stuck gap rest a hrest hgap htrivia ha =>
      have hbehind : (c.skip gap.length).rest = [] ++ a :: rest := by
        rw [skip_rest, hrest, List.drop_left, List.nil_append]
      have hagain := scan_of_stuck hbehind .empty htrivia ha
      rwa [List.length_nil, skip_zero] at hagain

/-- Where a search stays, only advancing moves the cursor. -/
theorem after_eq_self
    (hscan : c.scan.cursor = c)
    {ops : List Operation}
    (hops : .advance ∉ ops) :
    c.after ops = c := by
  induction ops with
  | nil => rfl
  | cons op ops ih =>
      rw [List.mem_cons, not_or] at hops
      obtain ⟨hop, hops⟩ := hops
      have hperform : (c.perform op).2 = c := by
        cases op with
        | advance => exact absurd rfl hop
        | scan => exact hscan
        | _ => rfl
      rw [after, List.foldl_cons, hperform]
      exact ih hops

/-- Behind a string mark there is a string, whatever it holds. -/
theorem scan_of_stringMark
    {gap body : List Char}
    (hrest : c.rest = gap ++ stringMark :: body)
    (hgap : Separator gap) :
    ∃ value, c.scan.outcome = .ok (some (.string value)) := by
  have hread : Lexeme.read? (stringMark :: body) =
      some ⟨.string (Text.Body.read body).value, stringMark :: (Text.Body.read body).spelling,
        (Text.Body.read body).closed⟩ := by
    simp [Lexeme.read?]
  exact ⟨_, (scan_of_lexeme hrest hgap (by rintro b ⟨⟩; decide) hread).1⟩

end Cursor

section Numerals

open Decimal

theorem Decimal.Numeral.spelling_read_cons
    {a : Char}
    (r : List Char)
    (ha : isDigit a = true) :
    (read (a :: r)).spelling = a :: (read r).spelling := by
  simp only [read, List.takeWhile_cons, List.dropWhile_cons, ha, if_true]
  split <;> simp [spelling]

theorem numeralRun_true (cs : List Char) :
    numeralRun true cs = cs.takeWhile isDigit := by
  induction cs with
  | nil => rfl
  | cons a r ih =>
      by_cases hpoint : a = '.'
      · subst hpoint
        rfl
      · by_cases hdigit : isDigit a = true <;> simp [numeralRun, hpoint, hdigit, ih]

/-- What is taken for a numeral is the longest numeral. -/
theorem numeralRun_false (cs : List Char) :
    numeralRun false cs = (Numeral.read cs).spelling := by
  induction cs with
  | nil => rfl
  | cons a r ih =>
      by_cases hpoint : a = '.'
      · subst hpoint
        rw [numeralRun, if_pos rfl, if_neg Bool.false_ne_true, numeralRun_true]
        rfl
      · by_cases hdigit : isDigit a = true
        · rw [Numeral.spelling_read_cons r hdigit, ← ih, numeralRun, if_neg hpoint, if_pos hdigit]
        · simp [numeralRun, hpoint, hdigit, Numeral.read, Numeral.spelling]

namespace Cursor

variable {c d : Cursor} {parse : List Char → Except (List Char) Binary64}

/-- A parser that accepts the longest numeral makes a number of it. -/
theorem scanNumber_of_accepts
    {x : Binary64}
    (hx : parse (Numeral.read d.rest).spelling = .ok x) :
    d.scanNumber parse = (.ok (.number x), d.skip (Numeral.read d.rest).spelling.length) := by
  simp only [scanNumber, numeralRun_false, hx]

theorem scan_of_isDigit
    {a : Char} {r : List Char}
    (hrest : c.skipTrivia.2.rest = a :: r)
    (ha : isDigit a = true) :
    c.scan.outcome = .ok (some (.number (Numeral.read (a :: r)).value)) ∧
      c.scan.cursor = c.skipTrivia.2.skip (Numeral.read (a :: r)).spelling.length := by
  have hread : Lexeme.read? c.skipTrivia.2.rest =
      some ⟨.number (Numeral.read (a :: r)).value, (Numeral.read (a :: r)).spelling, true⟩ := by
    rw [hrest, Lexeme.read?, if_neg (ne_of_class ha (by decide)), if_pos ha]
  simp only [scan, scanLexeme_of_read? hread, and_self]

/-- Where a numeral is next, the parser of numbers decides; else it is not asked. -/
theorem scanWith_cases (parse : List Char → Except (List Char) Binary64) (c : Cursor) :
    c.scanWith parse = (c.scan.outcome, c.scan.cursor) ∨
    ∃ n : Numeral, n.Lawful ∧ c.scan.outcome = .ok (some (.number n.value)) ∧
      ∀ x, parse n.spelling = .ok x →
        c.scanWith parse = (.ok (some (.number x)), c.scan.cursor) := by
  cases hrest : c.skipTrivia.2.rest with
  | nil => exact .inl (by simp [scanWith, hrest])
  | cons a r =>
      by_cases ha : isDigit a = true
      · obtain ⟨houtcome, hcursor⟩ := scan_of_isDigit hrest ha
        refine .inr ⟨Numeral.read (a :: r), Numeral.lawful_read ha, houtcome, ?_⟩
        intro x hx
        rw [← hrest] at hx
        have hnumber := scanNumber_of_accepts hx
        rw [hrest] at hnumber
        simp only [scanWith, hrest, List.head?_cons, Option.any_some, ha, if_true, hnumber, hcursor]
        rfl
      · exact .inl (by simp [scanWith, hrest, ha])

/-- A parser that accepts all numerals never makes a search fail. -/
theorem scanWith_eq_error_iff
    (haccepts : ∀ n : Numeral, n.Lawful → ∃ x, parse n.spelling = .ok x)
    (e : LexError) :
    (c.scanWith parse).1 = .error e ↔ c.scan.outcome = .error e := by
  rcases scanWith_cases parse c with heq | ⟨n, hn, houtcome, hnumber⟩
  · rw [heq]
  · obtain ⟨x, hx⟩ := haccepts n hn
    rw [hnumber x hx, houtcome]
    simp

theorem scanWith_cursor
    (haccepts : ∀ n : Numeral, n.Lawful → ∃ x, parse n.spelling = .ok x) :
    (c.scanWith parse).2 = c.scan.cursor := by
  rcases scanWith_cases parse c with heq | ⟨n, hn, houtcome, hnumber⟩
  · rw [heq]
  · obtain ⟨x, hx⟩ := haccepts n hn
    rw [hnumber x hx]

end Cursor

end Numerals

/-- **Failing searches.** Move a cursor in any way, and search from there. The search fails exactly
if a character with which no token starts stands behind the longest run of blanks and comments. The
error names this character and is at the place in front of it, which is where the cursor stays; and
as long as nobody advances, every later search meets the same error and stays there too. In front of
a string no search fails; a comment is passed over, whatever it holds; and no parser of numbers that
accepts all numerals makes a search fail. -/
theorem search_fails_iff (source : List Char) (ops : List Cursor.Operation) :
    let c := (Cursor.ofSource source).after ops
    ∃ front w rest : List Char,
      c.Behind source front ∧ LeadingTrivia c.rest w rest ∧
      ((∃ e, c.scan.outcome = .error e) ↔
        ∃ a back, rest = a :: back ∧ startsToken a = false) ∧
      (∀ e, c.scan.outcome = .error e → ∃ a back, rest = a :: back ∧
        e.message = "Can't handle character: ".toList ++ [a] ∧
        e.position = Position.behind (front ++ w) ∧
        c.scan.cursor.position = e.position ∧ c.scan.cursor.rest = a :: back ∧
        ∀ later : List Cursor.Operation, .advance ∉ later →
          (c.scan.cursor.after later).scan.outcome = .error e ∧
          (c.scan.cursor.after later).scan.cursor = c.scan.cursor) ∧
      (∀ gap body, Separator gap → c.rest = gap ++ stringMark :: body →
        ∃ value, c.scan.outcome = .ok (some (.string value))) ∧
      (∀ gap body back, Separator gap → '\n' ∉ body →
        c.rest = gap ++ commentMark :: (body ++ '\n' :: back) →
        let d := c.skip (gap ++ commentMark :: (body ++ ['\n'])).length
        d.scan.outcome = c.scan.outcome ∧ d.scan.cursor = c.scan.cursor) ∧
      (∀ gap body, Separator gap → '\n' ∉ body → c.rest = gap ++ commentMark :: body →
        c.scan.outcome = .ok none) ∧
      (∀ parse : List Char → Except (List Char) Binary64,
        (∀ n : Decimal.Numeral, n.Lawful → ∃ x, parse n.spelling = .ok x) →
        (∀ e, (c.scanWith parse).1 = .error e ↔ c.scan.outcome = .error e) ∧
        (c.scanWith parse).2 = c.scan.cursor) ∧
      (∀ parse : List Char → Except (List Char) Binary64,
        (∀ n : Decimal.Numeral, n.Lawful → parse n.spelling = .ok n.value) →
        c.scanWith parse = (c.scan.outcome, c.scan.cursor)) := by
  intro c
  obtain ⟨front, hc⟩ := Cursor.exists_behind_after source ops
  obtain ⟨w, rest, hw, -⟩ := exists_leadingTrivia c.rest
  refine ⟨front, w, rest, hc, hw, ?_, ?_, ?_, ?_, ?_, ?_, ?_⟩
  · constructor
    · rintro ⟨e, herror⟩
      obtain ⟨a, back, hrest, ha, -⟩ := (Cursor.scan_eq_error_iff hw e).mp herror
      exact ⟨a, back, hrest, ha⟩
    · rintro ⟨a, back, hrest, ha⟩
      exact ⟨_, (Cursor.scan_eq_error_iff hw _).mpr ⟨a, back, hrest, ha, rfl⟩⟩
  · intro e herror
    obtain ⟨a, back, rfl, ha, rfl⟩ := (Cursor.scan_eq_error_iff hw e).mp herror
    have hcursor := Cursor.scan_cursor_of_error hw herror
    have htake : c.rest.take w.length = w := by rw [hw.text_eq, List.take_left]
    refine ⟨a, back, rfl, rfl, ?_, ?_, ?_, ?_⟩
    · have hplace := (hc.skip w.length).position_eq
      rwa [htake] at hplace
    · rw [hcursor]
      rfl
    · rw [hcursor, Cursor.skip_rest, hw.text_eq, List.drop_left]
    · intro later hlater
      obtain ⟨hagain, hstays⟩ := Cursor.scan_again_of_error herror
      rw [Cursor.after_eq_self hstays hlater]
      exact ⟨hagain, hstays⟩
  · intro gap body hgap hrest
    exact Cursor.scan_of_stringMark hrest hgap
  · intro gap body back hgap hbody hrest
    have hcomment : Separator (gap ++ commentMark :: (body ++ ['\n'])) :=
      hgap.append (.comment hbody .empty)
    refine Cursor.scan_separator hcomment (r := back) ?_
    simpa using hrest
  · intro gap body hgap hbody hrest
    exact (Cursor.scan_of_trailer (hrest ▸ .comment hgap hbody)).1
  · intro parse haccepts
    exact ⟨Cursor.scanWith_eq_error_iff haccepts, Cursor.scanWith_cursor haccepts⟩
  · intro parse hvalue
    rcases Cursor.scanWith_cases parse c with heq | ⟨n, hn, houtcome, hnumber⟩
    · exact heq
    · rw [hnumber n.value (hvalue n hn), houtcome]

theorem search_fails_at_second_point :
    let c := (Cursor.ofSource ['1', '.', '2', '.', '3']).after [.scan]
    c.scan.outcome = .error ⟨.unexpected '.', ⟨1, 3, 3⟩⟩ ∧
    (c.scan.cursor.after [.peek, .scan]).scan.outcome = .error ⟨.unexpected '.', ⟨1, 3, 3⟩⟩ ∧
    ((Cursor.ofSource ['1', '.', '2', '.', '3']).scanWith
        fun text => .ok (Decimal.Numeral.read text).value).1 =
      .ok (some (.number ⟨0x3ff3333333333333⟩)) := by
  intro c
  have herror : c.scan.outcome = .error ⟨.unexpected '.', ⟨1, 3, 3⟩⟩ := by
    decide +kernel
  have hnumber : (Cursor.ofSource ['1', '.', '2', '.', '3']).scan.outcome =
      .ok (some (.number ⟨0x3ff3333333333333⟩)) := by
    decide +kernel
  have hparse (n : Decimal.Numeral) (hn : n.Lawful) :
      (Decimal.Numeral.read n.spelling).value = n.value := by
    have hread : Decimal.Numeral.read (n.spelling ++ []) = n :=
      Decimal.Numeral.read_spelling_append hn (by simp)
    rw [List.append_nil] at hread
    rw [hread]
  obtain ⟨_, _, _, -, -, -, hsticky, -⟩ :=
    search_fails_iff ['1', '.', '2', '.', '3'] [.scan]
  obtain ⟨_, _, -, -, -, -, -, hlater⟩ := hsticky _ herror
  obtain ⟨_, _, _, -, -, -, -, -, -, -, -, hexact⟩ :=
    search_fails_iff ['1', '.', '2', '.', '3'] []
  refine ⟨herror, (hlater [.peek, .scan] (by decide)).1, ?_⟩
  have hwith := hexact (fun text => .ok (Decimal.Numeral.read text).value)
    (fun n hn => congrArg Except.ok (hparse n hn))
  exact (congrArg Prod.fst hwith).trans hnumber

end TokenStream
