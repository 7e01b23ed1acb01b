import TokenStream.Reader
import TokenStream.Proofs.Spelling

/-!
# Divisions of a text

How a text falls into separators and spellings. A division lists the tokens, each with the
separator in front of it and its spelling, and the trailer behind the last one. It is lawful if
every spelling ends where it has to, and if at most the last token is a string without a closing
mark, with nothing behind it.

**Results** one search passes over one piece of the division, a text has at most one lawful
division, and reading all tokens of a text succeeds exactly if it has one, with the tokens of the
division.
-/

namespace TokenStream

/-- The separator in front of a token, the token and its spelling. -/
structure Piece where
  gap : List Char
  token : Token
  spelling : List Char

/-- The pieces of a text in order, and what stands behind the last one. -/
structure Division where
  pieces : List Piece
  trailer : List Char

namespace Division

/-- The text that is divided. -/
def text (d : Division) : List Char :=
  d.pieces.foldr (fun p rest => p.gap ++ (p.spelling ++ rest)) d.trailer

def tokens (d : Division) : List Token :=
  d.pieces.map Piece.token

@[simp] theorem text_nil (w : List Char) :
    text ⟨[], w⟩ = w := rfl

@[simp] theorem text_cons (p : Piece) (ps : List Piece) (w : List Char) :
    text ⟨p :: ps, w⟩ = p.gap ++ (p.spelling ++ text ⟨ps, w⟩) := rfl

@[simp] theorem tokens_nil (w : List Char) :
    tokens ⟨[], w⟩ = [] := rfl

@[simp] theorem tokens_cons (p : Piece) (ps : List Piece) (w : List Char) :
    tokens ⟨p :: ps, w⟩ = p.token :: tokens ⟨ps, w⟩ := rfl

/-- Every part is what it has to be, and every spelling ends in front of what follows it. -/
inductive Lawful : Division → Prop
  | trailer
      {w : List Char}
      (hw : Trailer w) :
      Lawful ⟨[], w⟩
  | piece
      {gap l : List Char} {t : Token} {ps : List Piece} {w : List Char}
      (hgap : Separator gap)
      (hl : Spells t l)
      (hend : EndsBefore t l (text ⟨ps, w⟩))
      (hrest : Lawful ⟨ps, w⟩) :
      Lawful ⟨⟨gap, t, l⟩ :: ps, w⟩
  | openString
      {gap value l : List Char}
      (hgap : Separator gap)
      (hl : SpellsOpen value l) :
      Lawful ⟨[⟨gap, .string value, l⟩], []⟩

end Division

/-- How a text may begin. -/
inductive Beginning : List Char → Prop
  | trailer
      {w : List Char}
      (hw : Trailer w) :
      Beginning w
  | token
      {gap l rest : List Char} {t : Token}
      (hgap : Separator gap)
      (hl : Spells t l)
      (hend : EndsBefore t l rest) :
      Beginning (gap ++ (l ++ rest))
  | openString
      {gap value l : List Char}
      (hgap : Separator gap)
      (hl : SpellsOpen value l) :
      Beginning (gap ++ l)
  | stuck
      {gap rest : List Char} {a : Char}
      (hgap : Separator gap)
      (htrivia : opensTrivia a = false)
      (ha : startsToken a = false) :
      Beginning (gap ++ a :: rest)

theorem beginning (cs : List Char) : Beginning cs := by
  rcases trailer_or_separator cs with htrailer | ⟨gap, a, r, rfl, hgap, htrivia⟩
  · exact .trailer htrailer
  · rcases Lexeme.spells_or_startsToken_eq_false a r with
      ⟨t, l, rest, heq, hl, hend⟩ | ⟨value, hl⟩ | ha
    · rw [heq]
      exact .token hgap hl hend
    · exact .openString hgap hl
    · exact .stuck hgap htrivia ha

/-- Where a spelling begins, no separator goes on. -/
theorem Spells.opensTrivia_of_head
    {t : Token} {l rest : List Char}
    (h : Spells t l) :
    ∀ a ∈ (l ++ rest).head?, opensTrivia a = false := by
  obtain ⟨c, cs, rfl, hc⟩ := h.exists_eq_cons
  rintro a ⟨⟩
  exact opensTrivia_eq_false_of_startsToken hc

theorem SpellsOpen.opensTrivia_of_head
    {value l : List Char}
    (h : SpellsOpen value l) :
    ∀ a ∈ l.head?, opensTrivia a = false := by
  obtain ⟨c, cs, rfl, hc⟩ := h.exists_eq_cons
  rintro a ⟨⟩
  exact opensTrivia_eq_false_of_startsToken hc

namespace Cursor

variable {c : Cursor}

theorem scanLexeme_of_read?
    {x : Lexeme}
    (h : Lexeme.read? c.rest = some x) :
    c.scanLexeme =
      ⟨.ok (some x.token), .scanStarted c.position :: x.events, c.skip x.spelling.length⟩ := by
  cases hrest : c.rest with
  | nil => simp [hrest, Lexeme.read?] at h
  | cons a r =>
      rw [hrest] at h
      simp [scanLexeme, hrest, h]

theorem scanLexeme_of_startsToken_eq_false
    {a : Char} {r : List Char}
    (hrest : c.rest = a :: r)
    (ha : startsToken a = false) :
    c.scanLexeme =
      ⟨.error (c.fail (.unexpected a)),
        [.scanStarted c.position, .errorRaised (c.fail (.unexpected a))], c⟩ := by
  simp [scanLexeme, hrest, Lexeme.read?_eq_none ha]

/-- A separator ahead makes no difference to what is found. -/
theorem scan_separator
    {w r : List Char}
    (hw : Separator w)
    (hrest : c.rest = w ++ r) :
    (c.skip w.length).scan.outcome = c.scan.outcome ∧
      (c.skip w.length).scan.cursor = c.scan.cursor := by
  simp only [scan, skipTrivia_separator hw hrest, and_self]

/-- In front of a trailer a search finds nothing and ends at the end of the text. -/
theorem scan_of_trailer
    (h : Trailer c.rest) :
    c.scan.outcome = .ok none ∧ c.scan.cursor = c.skip c.rest.length := by
  have hskip := skipTrivia_trailer h
  have hend : (c.skip c.rest.length).scanLexeme = ⟨.ok none, [], c.skip c.rest.length⟩ := by
    simp [scanLexeme]
  simp [scan, hskip, hend]

/-- Behind a separator the search finds the lexeme, passes over it and reports what it has to
report. -/
theorem scan_of_lexeme
    {gap cs : List Char} {x : Lexeme}
    (hrest : c.rest = gap ++ cs)
    (hgap : Separator gap)
    (hstops : ∀ a ∈ cs.head?, opensTrivia a = false)
    (hread : Lexeme.read? cs = some x) :
    c.scan.outcome = .ok (some x.token) ∧
      c.scan.cursor = c.skip (gap ++ x.spelling).length ∧
      ∀ event ∈ x.events, event ∈ c.scan.events := by
  have hskip := skipTrivia_eq_skip hgap hrest hstops
  have hbehind : Lexeme.read? (c.skip gap.length).rest = some x := by
    rw [skip_rest, hrest, List.drop_left]
    exact hread
  simp +contextual [scan, hskip, scanLexeme_of_read? hbehind, skip_skip]

/-- A search passes over a separator and a spelling that ends behind it. -/
theorem scan_of_spells
    {gap l rest : List Char} {t : Token}
    (hrest : c.rest = gap ++ (l ++ rest))
    (hgap : Separator gap)
    (hl : Spells t l)
    (hend : EndsBefore t l rest) :
    c.scan.outcome = .ok (some t) ∧ c.scan.cursor = c.skip (gap ++ l).length := by
  obtain ⟨houtcome, hcursor, -⟩ :=
    scan_of_lexeme hrest hgap hl.opensTrivia_of_head (Lexeme.read?_of_spells hl hend)
  exact ⟨houtcome, hcursor⟩

theorem scan_of_spellsOpen
    {gap value l : List Char}
    (hrest : c.rest = gap ++ l)
    (hgap : Separator gap)
    (hl : SpellsOpen value l) :
    c.scan.outcome = .ok (some (.string value)) ∧ c.scan.cursor = c.skip c.rest.length := by
  obtain ⟨houtcome, hcursor, -⟩ :=
    scan_of_lexeme hrest hgap hl.opensTrivia_of_head (Lexeme.read?_of_spellsOpen hl)
  rw [hrest]
  exact ⟨houtcome, hcursor⟩

/-- In front of a character that starts no token the search stops with an error. -/
theorem scan_of_stuck
    {gap rest : List Char} {a : Char}
    (hrest : c.rest = gap ++ a :: rest)
    (hgap : Separator gap)
    (htrivia : opensTrivia a = false)
    (ha : startsToken a = false) :
    c.scan.outcome = .error ((c.skip gap.length).fail (.unexpected a)) ∧
      c.scan.cursor = c.skip gap.length := by
  have hskip : c.skipTrivia.2 = c.skip gap.length := by
    apply skipTrivia_eq_skip hgap hrest
    rintro b ⟨⟩
    exact htrivia
  have hbehind : (c.skip gap.length).rest = a :: rest := by simp [hrest]
  simp [scan, hskip, scanLexeme_of_startsToken_eq_false hbehind ha]

end Cursor

namespace Reader

variable {c : Cursor}

theorem readAll_of_end
    (h : c.scan.outcome = .ok none) :
    (ofCursor c).readAll.tokens = [] ∧ (ofCursor c).readAll.error = none := by
  have hresult : (ofCursor c).read.result = .ok none := h
  rw [readAll_of_read_end hresult]
  exact ⟨rfl, rfl⟩

theorem readAll_of_token
    {t : Token}
    (h : c.scan.outcome = .ok (some t)) :
    (ofCursor c).readAll.tokens = t :: (ofCursor c.scan.cursor).readAll.tokens ∧
      (ofCursor c).readAll.error = (ofCursor c.scan.cursor).readAll.error := by
  have hresult : (ofCursor c).read.result = .ok (some t) := h
  rw [readAll_of_read_token hresult]
  exact ⟨rfl, rfl⟩

theorem readAll_of_error
    {e : LexError}
    (h : c.scan.outcome = .error e) :
    (ofCursor c).readAll.tokens = [] ∧ (ofCursor c).readAll.error = some e := by
  have hresult : (ofCursor c).read.result = .error e := h
  rw [readAll_of_read_error hresult]
  exact ⟨rfl, rfl⟩

end Reader

/-- A separator ends in front of the first character that opens neither a blank nor a comment. -/
theorem Separator.append_inj
    {v w a b : List Char}
    (hv : Separator v)
    (hw : Separator w)
    (ha : ∀ x ∈ a.head?, opensTrivia x = false)
    (hb : ∀ x ∈ b.head?, opensTrivia x = false)
    (h : v ++ a = w ++ b) :
    v = w ∧ a = b := by
  -- both are where the search behind blanks and comments stops
  have hleft := Cursor.skipTrivia_eq_skip (c := Cursor.ofSource (v ++ a)) hv rfl ha
  have hright := Cursor.skipTrivia_eq_skip (c := Cursor.ofSource (v ++ a)) hw h hb
  have hrest : ((Cursor.ofSource (v ++ a)).skip v.length).rest =
      ((Cursor.ofSource (v ++ a)).skip w.length).rest := by
    rw [← hleft, hright]
  have hab : a = b := by
    simp only [Cursor.skip_rest, Cursor.ofSource, List.drop_left] at hrest
    rw [hrest, h, List.drop_left]
  subst hab
  exact ⟨List.append_cancel_right h, rfl⟩

/-- No trailer goes on with a character that starts a token. -/
theorem Trailer.not_append_cons
    {w r : List Char} {a : Char}
    (hw : Separator w)
    (ha : opensTrivia a = false) :
    ¬ Trailer (w ++ a :: r) := by
  intro htrailer
  have hend := Cursor.skipTrivia_trailer (c := Cursor.ofSource (w ++ a :: r)) htrailer
  have hstop := Cursor.skipTrivia_eq_skip (c := Cursor.ofSource (w ++ a :: r)) hw rfl
    (by rintro b ⟨⟩; exact ha)
  have hrest := congrArg Cursor.rest (hend.symm.trans hstop)
  simp [Cursor.ofSource] at hrest

namespace Division

/-- The first piece of a lawful division, as it is read: the separator in front of it ends where
its spelling begins, and that is where the lexeme is found. -/
structure Leads (text gap : List Char) (x : Lexeme) (rest : List Char) : Prop where
  text_eq : text = gap ++ (x.spelling ++ rest)
  separator : Separator gap
  stops : ∀ a ∈ (x.spelling ++ rest).head?, opensTrivia a = false
  read : Lexeme.read? (x.spelling ++ rest) = some x

theorem leads_of_spells
    {gap l : List Char} {t : Token} {ps : List Piece} {w : List Char}
    (hgap : Separator gap)
    (hl : Spells t l)
    (hend : EndsBefore t l (text ⟨ps, w⟩)) :
    Leads (text ⟨⟨gap, t, l⟩ :: ps, w⟩) gap ⟨t, l, true⟩ (text ⟨ps, w⟩) :=
  ⟨rfl, hgap, hl.opensTrivia_of_head, Lexeme.read?_of_spells hl hend⟩

theorem leads_of_spellsOpen
    {gap value l : List Char}
    (hgap : Separator gap)
    (hl : SpellsOpen value l) :
    Leads (text ⟨[⟨gap, .string value, l⟩], []⟩) gap ⟨.string value, l, false⟩ [] := by
  refine ⟨rfl, hgap, ?_, ?_⟩
  · simpa using hl.opensTrivia_of_head
  · simpa using Lexeme.read?_of_spellsOpen hl

/-- A text has one first piece. -/
theorem Leads.unique
    {text text' gap gap' rest rest' : List Char} {x x' : Lexeme}
    (h : Leads text gap x rest)
    (h' : Leads text' gap' x' rest')
    (htext : text = text') :
    gap = gap' ∧ x = x' ∧ rest = rest' := by
  obtain ⟨rfl, hbehind⟩ := Separator.append_inj h.separator h'.separator h.stops h'.stops
    (h.text_eq.symm.trans (htext.trans h'.text_eq))
  have hx : x = x' := by
    have hread := h.read
    rw [hbehind, h'.read] at hread
    exact (Option.some.inj hread).symm
  subst hx
  exact ⟨rfl, rfl, List.append_cancel_left hbehind⟩

theorem Leads.not_trailer
    {text gap rest : List Char} {x : Lexeme}
    (h : Leads text gap x rest) :
    ¬ Trailer text := by
  have hread := h.read
  have hstops := h.stops
  rw [h.text_eq]
  cases hbehind : x.spelling ++ rest with
  | nil => simp [hbehind, Lexeme.read?] at hread
  | cons a r => exact Trailer.not_append_cons h.separator (hstops a (by simp [hbehind]))

/-- A text has at most one lawful division. -/
theorem Lawful.unique
    {d e : Division}
    (hd : d.Lawful)
    (he : e.Lawful)
    (h : d.text = e.text) :
    d = e := by
  induction hd generalizing e with
  | @trailer w hw =>
      cases he with
      | trailer _ => simpa using h
      | piece hgap hl hend _ =>
          rw [text_nil] at h
          exact absurd (h ▸ hw) (leads_of_spells hgap hl hend).not_trailer
      | openString hgap hl =>
          rw [text_nil] at h
          exact absurd (h ▸ hw) (leads_of_spellsOpen hgap hl).not_trailer
  | @piece gap l t ps w hgap hl hend _ ih =>
      have hleads := leads_of_spells hgap hl hend
      cases he with
      | trailer hw =>
          rw [text_nil] at h
          exact absurd (h ▸ hw) hleads.not_trailer
      | piece hgap' hl' hend' hrest' =>
          obtain ⟨rfl, hx, hrest⟩ := hleads.unique (leads_of_spells hgap' hl' hend') h
          obtain ⟨rfl, rfl, _⟩ := Lexeme.mk.inj hx
          obtain ⟨rfl, rfl⟩ := Division.mk.inj (ih hrest' hrest)
          rfl
      | openString hgap' hl' =>
          obtain ⟨_, hx, _⟩ := hleads.unique (leads_of_spellsOpen hgap' hl') h
          simp at hx
  | @openString gap value l hgap hl =>
      have hleads := leads_of_spellsOpen hgap hl
      cases he with
      | trailer hw =>
          rw [text_nil] at h
          exact absurd (h ▸ hw) hleads.not_trailer
      | piece hgap' hl' hend' _ =>
          obtain ⟨_, hx, _⟩ := hleads.unique (leads_of_spells hgap' hl' hend') h
          simp at hx
      | openString hgap' hl' =>
          obtain ⟨rfl, hx, _⟩ := hleads.unique (leads_of_spellsOpen hgap' hl') h
          obtain ⟨htoken, rfl, _⟩ := Lexeme.mk.inj hx
          obtain rfl := Token.string.inj htoken
          rfl

/-- The tokens of a lawful division are read, and nothing is left. -/
theorem Lawful.readAll
    {d : Division} {c : Cursor}
    (hd : d.Lawful)
    (hrest : c.rest = d.text) :
    (Reader.ofCursor c).readAll.tokens = d.tokens ∧
      (Reader.ofCursor c).readAll.error = none := by
  induction hd generalizing c with
  | trailer hw =>
      rw [text_nil] at hrest
      have hscan := Cursor.scan_of_trailer (hrest ▸ hw)
      exact Reader.readAll_of_end hscan.1
  | @piece gap l t ps w hgap hl hend _ ih =>
      obtain ⟨houtcome, hcursor⟩ := Cursor.scan_of_spells hrest hgap hl hend
      have hbehind : c.scan.cursor.rest = text ⟨ps, w⟩ := by
        rw [hcursor, Cursor.skip_rest, hrest]
        simp
      obtain ⟨htokens, herror⟩ := Reader.readAll_of_token houtcome
      obtain ⟨ihtokens, iherror⟩ := ih hbehind
      constructor
      · rw [htokens, ihtokens, tokens_cons]
      · rw [herror, iherror]
  | @openString gap value l hgap hl =>
      have hrest' : c.rest = gap ++ l := by simpa using hrest
      obtain ⟨houtcome, hcursor⟩ := Cursor.scan_of_spellsOpen hrest' hgap hl
      have hend : Trailer c.scan.cursor.rest := by
        rw [hcursor, Cursor.skip_rest, List.drop_length]
        exact .separator .empty
      obtain ⟨htokens, herror⟩ := Reader.readAll_of_token houtcome
      obtain ⟨htokens', herror'⟩ := Reader.readAll_of_end (Cursor.scan_of_trailer hend).1
      constructor
      · rw [htokens, htokens']
        rfl
      · rw [herror, herror']

/-- What is read without an error has a lawful division. -/
theorem exists_lawful_of_readAll
    {c : Cursor}
    (h : (Reader.ofCursor c).readAll.error = none) :
    ∃ d : Division, d.Lawful ∧ d.text = c.rest := by
  induction hn : c.rest.length using Nat.strong_induction_on generalizing c with
  | _ n ih =>
      have hbegin := beginning c.rest
      generalize hrest : c.rest = cs at hbegin
      cases hbegin with
      | trailer hw => exact ⟨⟨[], cs⟩, .trailer hw, rfl⟩
      | @token gap l rest t hgap hl hend =>
          obtain ⟨houtcome, hcursor⟩ := Cursor.scan_of_spells hrest hgap hl hend
          have hbehind : c.scan.cursor.rest = rest := by
            rw [hcursor, Cursor.skip_rest, hrest]
            simp
          have hlt := Cursor.length_scan_rest_lt houtcome
          rw [(Reader.readAll_of_token houtcome).2] at h
          obtain ⟨⟨ps, w⟩, hlawful, htext⟩ := ih _ (hn ▸ hlt) h rfl
          rw [hbehind] at htext
          refine ⟨⟨⟨gap, t, l⟩ :: ps, w⟩, .piece hgap hl ?_ hlawful, ?_⟩
          · rwa [htext]
          · rw [text_cons, htext]
      | @openString gap value l hgap hl =>
          exact ⟨_, .openString hgap hl, by simp⟩
      | stuck hgap htrivia ha =>
          have herror := (Cursor.scan_of_stuck hrest hgap htrivia ha).1
          rw [(Reader.readAll_of_error herror).2] at h
          cases h

/-- The text of a lawful division is read as its tokens. -/
theorem Lawful.tokenize_text
    {d : Division}
    (hd : d.Lawful) :
    tokenize d.text = .ok d.tokens := by
  obtain ⟨htokens, herror⟩ := hd.readAll (c := Cursor.ofSource d.text) rfl
  exact Reading.result_eq_ok_iff.mpr ⟨herror, htokens⟩

theorem exists_lawful_of_tokenize
    {source : List Char} {tokens : List Token}
    (h : tokenize source = .ok tokens) :
    ∃ d : Division, d.Lawful ∧ d.text = source ∧ d.tokens = tokens := by
  have herror := (Reading.result_eq_ok_iff.mp h).1
  obtain ⟨d, hlawful, rfl⟩ := exists_lawful_of_readAll herror
  refine ⟨d, hlawful, rfl, ?_⟩
  exact Except.ok.inj (hlawful.tokenize_text.symm.trans h)

end Division

/-- **Exact grammar.** A text is read as a list of tokens exactly if it has a lawful division with
these tokens, and it has at most one lawful division. -/
theorem tokenize_eq_ok_iff_exists_lawful (source : List Char) (tokens : List Token) :
    (tokenize source = .ok tokens ↔
      ∃ d : Division, d.Lawful ∧ d.text = source ∧ d.tokens = tokens) ∧
    {d : Division | d.Lawful ∧ d.text = source}.Subsingleton := by
  constructor
  · constructor
    · exact Division.exists_lawful_of_tokenize
    · rintro ⟨d, hlawful, rfl, rfl⟩
      exact hlawful.tokenize_text
  · rintro d ⟨hd, rfl⟩ e ⟨he, htext⟩
    exact hd.unique he htext.symm

end TokenStream
