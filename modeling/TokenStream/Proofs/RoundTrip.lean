import TokenStream.Proofs.Division
import TokenStream.Proofs.ReadBack

/-!
# Writing tokens and reading them back

Tokens that a text can spell are well-formed. Written one behind the other with a separator where
two of them clash, they are read back; two tokens that clash are never read back when they stand
side by side.

**Results** every token that is read is well-formed, every list of well-formed tokens with finite
numbers is read back from its texts, and no pair of clashing tokens can do without a separator.
-/

namespace TokenStream

namespace Token

/-- The token has a spelling, if it is not an infinite number. -/
def WellFormed : Token → Prop
  | punctuation _ => True
  | keyword _ => True
  | string _ => True
  | identifier w => IsWord w ∧ ∀ k : Keyword, k.word ≠ w
  | operator w => IsSymbol w
  | number x => x.isNaN = false ∧ x.negative = false

/-- Not an infinite number. -/
def IsFinite : Token → Prop
  | number x => x.isInfinite = false
  | _ => True

/-- A keyword or an identifier. -/
def IsName : Token → Prop
  | keyword _ => True
  | identifier _ => True
  | _ => False

end Token

/-- The two tokens cannot stand side by side without a separator. -/
inductive Clash : Token → Token → Prop
  | names
      {t u : Token}
      (ht : t.IsName)
      (hu : u.IsName) :
      Clash t u
  | nameNumber
      {t : Token} (y : Binary64)
      (ht : t.IsName) :
      Clash t (.number y)
  | numbers (x y : Binary64) :
      Clash (.number x) (.number y)
  | operators (v w : List Char) :
      Clash (.operator v) (.operator w)

/-- The texts of the tokens, each with the separator behind it, and a separator in front. -/
def written (front : List Char) (items : List (Token × List Char)) : List Char :=
  front ++ items.flatMap fun x => x.1.text ++ x.2

section Tokens

theorem bodyOf_escape (value : List Char) :
    BodyOf value (Text.escape value) := by
  induction value with
  | nil => exact .empty
  | cons c value ih =>
      by_cases hmark : c = stringMark ∨ c = escapeMark
      · have hescape : Text.escape (c :: value) = escapeMark :: c :: Text.escape value := by
          simp [Text.escape, hmark]
        rw [hescape]
        exact .pair ih
      · have hescape : Text.escape (c :: value) = c :: Text.escape value := by
          simp [Text.escape, hmark]
        obtain ⟨hstring, hnot⟩ := not_or.mp hmark
        rw [hescape]
        exact .plain hstring hnot ih

theorem isWord_keyword (k : Keyword) : IsWord k.word := by
  cases k <;> decide

/-- A well-formed token is spelled by its own text. -/
theorem Token.WellFormed.spells_text
    {t : Token}
    (h : t.WellFormed)
    (hfinite : t.IsFinite) :
    Spells t t.text := by
  cases t with
  | punctuation p => exact .punctuation p
  | keyword k => exact .keyword (isWord_keyword k) rfl
  | string value => exact .string (bodyOf_escape value)
  | identifier w => exact .identifier h.1 h.2
  | operator w => exact .operator h
  | number x =>
      obtain ⟨n, hn, hspelling, hvalue⟩ := Decimal.exists_numeral_plain h.1 hfinite h.2
      have hspells := Spells.number hn
      rw [hspelling, hvalue] at hspells
      exact hspells

/-- The value of a numeral has no sign and is a number. -/
theorem wellFormed_number (n : Decimal.Numeral) :
    (Token.number n.value).WellFormed := by
  have hle : Binary64.patternOf n.rational ≤ Binary64.infinityPattern := by
    unfold Binary64.patternOf
    split
    · exact Nat.zero_le _
    · exact Nat.min_le_right _ _
  rw [Decimal.Numeral.value_eq_ofPattern]
  exact ⟨Binary64.isNaN_ofPattern hle, Binary64.negative_ofPattern hle⟩

theorem Spells.wellFormed
    {t : Token} {l : List Char}
    (h : Spells t l) :
    t.WellFormed := by
  cases h with
  | punctuation _ => trivial
  | keyword _ _ => trivial
  | string _ => trivial
  | identifier hw hk => exact ⟨hw, hk⟩
  | operator hw => exact hw
  | @number n _ => exact wellFormed_number n

theorem Division.Lawful.wellFormed
    {d : Division}
    (h : d.Lawful) :
    ∀ t ∈ d.tokens, t.WellFormed := by
  induction h with
  | trailer _ => simp
  | piece _ hl _ _ ih =>
      rw [Division.tokens_cons]
      exact List.forall_mem_cons.mpr ⟨hl.wellFormed, ih⟩
  | openString _ _ =>
      rw [Division.tokens_cons]
      exact List.forall_mem_cons.mpr ⟨trivial, by simp⟩

end Tokens

section SideBySide

/-- A blank and a comment mark belong to no token. -/
theorem continues_eq_false_of_opensTrivia
    {a : Char}
    (h : opensTrivia a = true)
    (spelling : List Char) (t : Token) :
    t.continues spelling a = false := by
  have hclasses : isDigit a = false ∧ a ≠ '.' ∧ isIdentRest a = false ∧
      isOperatorChar a = false := by
    simp only [opensTrivia, isBlank, Bool.or_eq_true, decide_eq_true_eq] at h
    rcases h with ((rfl | rfl) | rfl) | rfl <;> decide
  obtain ⟨hdigit, hpoint, hrest, hoperator⟩ := hclasses
  cases t <;> simp [Token.continues, hdigit, hpoint, hrest, hoperator]

/-- A name goes on with a name or a number only, a number with a number, and an operator with an
operator. -/
theorem continues_eq_false_of_not_clash
    {t u : Token} {c : Char} {cs : List Char}
    (hu : Spells u (c :: cs))
    (h : ¬ Clash t u)
    (spelling : List Char) :
    t.continues spelling c = false := by
  have hname (hc : isIdentStart c = true) (hu : u.IsName) : t.continues spelling c = false := by
    have hdigit := isDigit_eq_false_of_isIdentStart hc
    have hpoint : c ≠ '.' := ne_of_class hc (by decide)
    have hoperator : isOperatorChar c = false :=
      eq_false_of_class hc fun _ h => (classes_of_isOperatorChar h).2.2.1
    cases t with
    | keyword _ => exact absurd (.names trivial hu) h
    | identifier _ => exact absurd (.names trivial hu) h
    | _ => simp [Token.continues, hdigit, hpoint, hoperator]
  generalize htext : c :: cs = text at hu
  cases hu with
  | punctuation p =>
      obtain ⟨rfl, _⟩ := List.cons.inj htext
      obtain ⟨_, hdigit, _, hoperator, hrest⟩ := classes_of_punctuation p
      have hpoint : p.char ≠ '.' := by cases p <;> decide
      cases t <;> simp [Token.continues, hdigit, hpoint, hoperator, hrest]
  | @number n hn =>
      obtain ⟨d, ds, hspelling, hd⟩ := hn.spelling_eq_cons
      obtain ⟨rfl, _⟩ := List.cons.inj (htext.trans hspelling)
      have hoperator : isOperatorChar c = false :=
        eq_false_of_class hd fun _ h => (classes_of_isOperatorChar h).2.1
      cases t with
      | keyword _ => exact absurd (.nameNumber _ trivial) h
      | identifier _ => exact absurd (.nameNumber _ trivial) h
      | number _ => exact absurd (.numbers _ _) h
      | _ => simp [Token.continues, hoperator]
  | keyword hw _ =>
      subst htext
      exact hname hw.1 trivial
  | identifier hw _ =>
      subst htext
      exact hname hw.1 trivial
  | operator hw =>
      subst htext
      have hc : isOperatorChar c = true := hw.2 c (by simp)
      obtain ⟨_, hdigit, _, _, hrest⟩ := classes_of_isOperatorChar hc
      have hpoint : c ≠ '.' := ne_of_class hc (by decide)
      cases t with
      | operator _ => exact absurd (.operators _ _) h
      | _ => simp [Token.continues, hdigit, hpoint, hrest]
  | string _ =>
      obtain ⟨rfl, _⟩ := List.cons.inj htext
      have hclasses : isDigit stringMark = false ∧ stringMark ≠ '.' ∧
          isIdentRest stringMark = false ∧ isOperatorChar stringMark = false := by decide
      obtain ⟨hdigit, hpoint, hrest, hoperator⟩ := hclasses
      cases t <;> simp [Token.continues, hdigit, hpoint, hoperator, hrest]

end SideBySide

section Written

/-- What is needed of a list of tokens with the separators behind them. -/
structure Separated (items : List (Token × List Char)) : Prop where
  wellFormed : ∀ x ∈ items, x.1.WellFormed ∧ x.1.IsFinite
  separator : ∀ x ∈ items, Separator x.2
  divided : items.IsChain fun x y => Clash x.1 y.1 → x.2 ≠ []

theorem Separated.tail
    {x : Token × List Char} {items : List (Token × List Char)}
    (h : Separated (x :: items)) :
    Separated items :=
  ⟨fun y hy => h.wellFormed y (List.mem_cons_of_mem x hy),
    fun y hy => h.separator y (List.mem_cons_of_mem x hy), h.divided.tail⟩

theorem written_cons (front : List Char) (x : Token × List Char)
    (items : List (Token × List Char)) :
    written front (x :: items) = front ++ (x.1.text ++ written x.2 items) := by
  simp [written]

/-- The text of a token ends where the separator or the next token begins. -/
theorem Separated.endsBefore
    {x : Token × List Char} {items : List (Token × List Char)}
    (h : Separated (x :: items)) :
    EndsBefore x.1 x.1.text (written x.2 items) := by
  intro a ha
  cases hgap : x.2 with
  | cons b w =>
      have hseparator : Separator (b :: w) := hgap ▸ h.separator x (by simp)
      obtain rfl : b = a := by simpa [written, hgap] using ha
      exact continues_eq_false_of_opensTrivia (hseparator.opensTrivia_of_head rfl) _ _
  | nil =>
      cases items with
      | nil => simp [written, hgap] at ha
      | cons y items =>
          have hclash : ¬ Clash x.1 y.1 := fun hclash =>
            (List.isChain_cons_cons.mp h.divided).1 hclash hgap
          obtain ⟨hwell, hfinite⟩ := h.wellFormed y (by simp)
          have hspells := hwell.spells_text hfinite
          obtain ⟨c, cs, htext, _⟩ := hspells.exists_eq_cons
          obtain rfl : c = a := by simpa [written_cons, hgap, htext] using ha
          rw [htext] at hspells
          exact continues_eq_false_of_not_clash hspells hclash _

/-- Tokens that are written one behind the other have a lawful division. -/
theorem Separated.exists_lawful
    {front : List Char} {items : List (Token × List Char)}
    (hfront : Separator front)
    (h : Separated items) :
    ∃ d : Division, d.Lawful ∧ d.text = written front items ∧ d.tokens = items.map Prod.fst := by
  induction items generalizing front with
  | nil => exact ⟨⟨[], front⟩, .trailer (.separator hfront), by simp [written], rfl⟩
  | cons x items ih =>
      obtain ⟨⟨ps, w⟩, hlawful, htext, htokens⟩ := ih (h.separator x (by simp)) h.tail
      obtain ⟨hwell, hfinite⟩ := h.wellFormed x (by simp)
      refine ⟨⟨⟨front, x.1, x.1.text⟩ :: ps, w⟩, ?_, ?_, ?_⟩
      · refine .piece hfront (hwell.spells_text hfinite) ?_ hlawful
        rw [htext]
        exact h.endsBefore
      · rw [Division.text_cons, htext, written_cons]
      · rw [Division.tokens_cons, htokens, List.map_cons]

end Written

section Clashing

/-- A text that starts with one long spelling, behind which nothing is left or a point that starts
no token. -/
def Merges (cs : List Char) : Prop :=
  ∃ t l rest, cs = l ++ rest ∧ Spells t l ∧ EndsBefore t l rest ∧
    (rest = [] ∨ ∃ r, rest = '.' :: r)

/-- A text that merges is never read as two tokens. -/
theorem Merges.tokenize_ne
    {cs : List Char}
    (h : Merges cs)
    (a b : Token) :
    tokenize cs ≠ .ok [a, b] := by
  obtain ⟨t, l, rest, rfl, hl, hend, hrest⟩ := h
  obtain ⟨houtcome, hcursor⟩ := Cursor.scan_of_spells (c := Cursor.ofSource (l ++ rest))
    rfl .empty hl hend
  have hbehind : (Cursor.ofSource (l ++ rest)).scan.cursor.rest = [] ++ rest := by
    rw [hcursor]
    simp [Cursor.ofSource]
  obtain ⟨htokens, herror⟩ := Reader.readAll_of_token houtcome
  unfold tokenize Reading.result Reader.ofSource
  rcases hrest with rfl | ⟨r, rfl⟩
  · have htrailer : Trailer (Cursor.ofSource (l ++ [])).scan.cursor.rest := by
      rw [hbehind]
      exact .separator .empty
    have hlast := Reader.readAll_of_end (Cursor.scan_of_trailer htrailer).1
    rw [herror, hlast.2, htokens, hlast.1]
    simp
  · have hstuck := Cursor.scan_of_stuck hbehind .empty (by decide) (by decide)
    rw [herror, (Reader.readAll_of_error hstuck.1).2]
    simp

theorem isWord_append
    {v w : List Char}
    (hv : IsWord v)
    (hw : ∀ c ∈ w, isIdentRest c = true) :
    IsWord (v ++ w) := by
  cases v with
  | nil => exact absurd hv id
  | cons c cs =>
      refine ⟨hv.1, ?_⟩
      intro a ha
      rcases List.mem_append.mp ha with ha | ha
      · exact hv.2 a ha
      · exact hw a ha

theorem isWord_text_of_isName
    {t : Token}
    (h : t.WellFormed)
    (hname : t.IsName) :
    IsWord t.text := by
  cases t with
  | keyword k => exact isWord_keyword k
  | identifier w => exact h.1
  | _ => exact absurd hname id

theorem IsWord.forall_isIdentRest
    {w : List Char}
    (h : IsWord w) :
    ∀ c ∈ w, isIdentRest c = true := by
  cases w with
  | nil => simp
  | cons c cs =>
      exact List.forall_mem_cons.mpr ⟨isIdentRest_of_isIdentStart h.1, h.2⟩

/-- A name swallows the digits of a number behind it, up to its point. -/
theorem merges_name_number
    {v : List Char} {n : Decimal.Numeral}
    (hv : IsWord v)
    (hn : n.Lawful) :
    Merges (v ++ n.spelling) := by
  have hword : IsWord (v ++ n.whole) :=
    isWord_append hv fun c hc => isIdentRest_of_isDigit (hn.whole_digits c hc)
  have hspells := Token.spells_ofWord hword
  cases hfraction : n.fraction with
  | none =>
      refine ⟨_, _, [], ?_, hspells, by rintro a ⟨⟩, Or.inl rfl⟩
      simp [Decimal.Numeral.spelling, hfraction]
  | some digits =>
      refine ⟨_, _, '.' :: digits, ?_, hspells, ?_, Or.inr ⟨digits, rfl⟩⟩
      · simp [Decimal.Numeral.spelling, hfraction]
      · rintro a ⟨⟩
        rw [Token.continues_ofWord]
        decide

/-- A number swallows the digits of a number behind it, and its point too unless it has one. -/
theorem merges_numbers
    {m n : Decimal.Numeral}
    (hm : m.Lawful)
    (hn : n.Lawful) :
    Merges (m.spelling ++ n.spelling) := by
  cases hfirst : m.fraction with
  | none =>
      have hjoined : Decimal.Numeral.Lawful ⟨m.whole ++ n.whole, n.fraction⟩ := by
        refine ⟨by simp [hm.whole_ne_nil], ?_, hn.fraction_digits⟩
        intro c hc
        rcases List.mem_append.mp hc with hc | hc
        · exact hm.whole_digits c hc
        · exact hn.whole_digits c hc
      refine ⟨_, _, [], ?_, .number hjoined, by rintro a ⟨⟩, Or.inl rfl⟩
      cases hsecond : n.fraction <;> simp [Decimal.Numeral.spelling, hfirst, hsecond]
  | some digits =>
      have hjoined : Decimal.Numeral.Lawful ⟨m.whole, some (digits ++ n.whole)⟩ := by
        refine ⟨hm.whole_ne_nil, hm.whole_digits, ?_⟩
        rintro _ ⟨⟩ c hc
        rcases List.mem_append.mp hc with hc | hc
        · exact hm.fraction_digits digits hfirst c hc
        · exact hn.whole_digits c hc
      cases hsecond : n.fraction with
      | none =>
          refine ⟨_, _, [], ?_, .number hjoined, by rintro a ⟨⟩, Or.inl rfl⟩
          simp [Decimal.Numeral.spelling, hfirst, hsecond]
      | some behind =>
          refine ⟨_, _, '.' :: behind, ?_, .number hjoined, ?_, Or.inr ⟨behind, rfl⟩⟩
          · simp [Decimal.Numeral.spelling, hfirst, hsecond]
          · rw [endsBefore_number_iff hjoined]
            rintro a ⟨⟩
            constructor
            · decide
            · simp

/-- Two tokens that clash merge when they stand side by side. -/
theorem merges_of_clash
    {t u : Token}
    (ht : t.WellFormed)
    (htFinite : t.IsFinite)
    (hu : u.WellFormed)
    (huFinite : u.IsFinite)
    (h : Clash t u) :
    Merges (t.text ++ u.text) := by
  cases h with
  | names htName huName =>
      have hword := isWord_append (isWord_text_of_isName ht htName)
        (isWord_text_of_isName hu huName).forall_isIdentRest
      exact ⟨_, _, [], by simp, Token.spells_ofWord hword, by rintro a ⟨⟩, Or.inl rfl⟩
  | nameNumber y htName =>
      obtain ⟨n, hn, hspelling, _⟩ := Decimal.exists_numeral_plain hu.1 huFinite hu.2
      have htext : (Token.number y).text = n.spelling := hspelling.symm
      rw [htext]
      exact merges_name_number (isWord_text_of_isName ht htName) hn
  | numbers x y =>
      obtain ⟨m, hm, hmText, _⟩ := Decimal.exists_numeral_plain ht.1 htFinite ht.2
      obtain ⟨n, hn, hnText, _⟩ := Decimal.exists_numeral_plain hu.1 huFinite hu.2
      have hx : (Token.number x).text = m.spelling := hmText.symm
      have hy : (Token.number y).text = n.spelling := hnText.symm
      rw [hx, hy]
      exact merges_numbers hm hn
  | operators v w =>
      have hsymbol : IsSymbol (v ++ w) := by
        refine ⟨by simp [ht.1], ?_⟩
        intro a ha
        rcases List.mem_append.mp ha with ha | ha
        · exact ht.2 a ha
        · exact hu.2 a ha
      exact ⟨.operator (v ++ w), v ++ w, [], by simp [Token.text], .operator hsymbol,
        by rintro a ⟨⟩, Or.inl rfl⟩

end Clashing

/-- **Round trip.** Every token that is read is well-formed; well-formed tokens with finite numbers
are read back from their texts if a separator stands between any two that clash; and two that clash
are not read back from their texts side by side. -/
theorem tokenize_written :
    (∀ (source : List Char) (tokens : List Token), tokenize source = .ok tokens →
      ∀ t ∈ tokens, t.WellFormed) ∧
    (∀ (front : List Char) (items : List (Token × List Char)),
      Separator front →
      (∀ x ∈ items, x.1.WellFormed ∧ x.1.IsFinite) →
      (∀ x ∈ items, Separator x.2) →
      (items.IsChain fun x y => Clash x.1 y.1 → x.2 ≠ []) →
      tokenize (written front items) = .ok (items.map Prod.fst)) ∧
    (∀ t u : Token, t.WellFormed → t.IsFinite → u.WellFormed → u.IsFinite → Clash t u →
      tokenize (t.text ++ u.text) ≠ .ok [t, u]) := by
  refine ⟨?_, ?_, ?_⟩
  · intro source tokens h
    obtain ⟨d, hlawful, _, rfl⟩ := Division.exists_lawful_of_tokenize h
    exact hlawful.wellFormed
  · intro front items hfront hwell hseparator hdivided
    obtain ⟨d, hlawful, htext, htokens⟩ :=
      Separated.exists_lawful hfront ⟨hwell, hseparator, hdivided⟩
    rw [← htext, ← htokens]
    exact hlawful.tokenize_text
  · intro t u ht htFinite hu huFinite hclash
    exact (merges_of_clash ht htFinite hu huFinite hclash).tokenize_ne t u

theorem tokenize_written_if_x :
    tokenize (written [' '] [(.keyword .ifWord, ['#', 'x', '\n']), (.identifier ['x'], []),
        (.string ['"', '\\', '#', '\n'], []), (.number ⟨0x3ff8000000000000⟩, ['\t'])]) =
      .ok [.keyword .ifWord, .identifier ['x'], .string ['"', '\\', '#', '\n'],
        .number ⟨0x3ff8000000000000⟩] ∧
    (∀ t ∈ [Token.keyword .ifWord, .identifier ['x'], .string ['"', '\\', '#', '\n'],
        .number ⟨0x3ff8000000000000⟩], t.WellFormed) ∧
    tokenize ((Token.keyword .ifWord).text ++ (Token.identifier ['x']).text) ≠
      .ok [.keyword .ifWord, .identifier ['x']] := by
  have hidentifier : (Token.identifier ['x']).WellFormed := by
    refine ⟨show IsWord ['x'] by decide, ?_⟩
    intro k
    cases k <;> decide
  have hnumber : (Token.number ⟨0x3ff8000000000000⟩).WellFormed := by
    constructor <;> decide
  have hcomment : Separator ['#', 'x', '\n'] :=
    Separator.comment (show '\n' ∉ ['x'] by decide) .empty
  have hwritten := tokenize_written.2.1 [' ']
    [(.keyword .ifWord, ['#', 'x', '\n']), (.identifier ['x'], []),
      (.string ['"', '\\', '#', '\n'], []), (.number ⟨0x3ff8000000000000⟩, ['\t'])]
    (.blank (by decide) .empty)
    (by
      simp only [List.forall_mem_cons]
      exact ⟨⟨trivial, trivial⟩, ⟨hidentifier, trivial⟩, ⟨trivial, trivial⟩,
        ⟨hnumber, by simp only [Token.IsFinite]; decide⟩, by simp⟩)
    (by
      simp only [List.forall_mem_cons]
      exact ⟨hcomment, .empty, .empty, .blank (by decide) .empty, by simp⟩)
    (by
      refine .cons_cons (fun _ => by simp) (.cons_cons ?_ (.cons_cons ?_ (.singleton _)))
      · intro hclash
        cases hclash with
        | names _ hname => exact absurd hname id
      · intro hclash
        cases hclash with
        | names hname _ => exact absurd hname id
        | nameNumber _ hname => exact absurd hname id)
  exact ⟨hwritten, tokenize_written.1 _ _ hwritten,
    tokenize_written.2.2 _ _ trivial trivial hidentifier trivial (.names trivial trivial)⟩

end TokenStream
