import TokenStream.Lexeme
import TokenStream.Proofs.Separator

/-!
# Spellings

Which texts spell which tokens, as a grammar, and where a spelling ends: in front of a character
that would make it longer it does not end. A string whose closing mark is missing is spelled by
the whole of what is left of the text.

**Results** reading the lexeme in front of a text finds exactly the spelling that ends there, and
every text starts with a spelling, is an open string, or has a first character that starts no
token.
-/

namespace TokenStream

namespace Decimal.Numeral

/-- At least one digit before the point, and only digits behind it. -/
structure Lawful (n : Numeral) : Prop where
  whole_ne_nil : n.whole ≠ []
  whole_digits : ∀ c ∈ n.whole, isDigit c = true
  fraction_digits : ∀ digits ∈ n.fraction, ∀ c ∈ digits, isDigit c = true

end Decimal.Numeral

/-- An identifier character that may come first, and identifier characters behind it. -/
def IsWord : List Char → Prop
  | [] => False
  | c :: cs => isIdentStart c = true ∧ ∀ a ∈ cs, isIdentRest a = true

-- the quantifier over a list, not the one over all characters
instance : DecidablePred IsWord
  | [] => .isFalse id
  | _ :: cs => @instDecidableAnd _ _ _ (List.decidableBAll _ cs)

/-- Operator characters, at least one. -/
def IsSymbol (cs : List Char) : Prop :=
  cs ≠ [] ∧ ∀ a ∈ cs, isOperatorChar a = true

/-- The inside of a string and the characters that it stands for. -/
inductive BodyOf : List Char → List Char → Prop
  | empty : BodyOf [] []
  | plain
      {c : Char} {value body : List Char}
      (hstring : c ≠ stringMark)
      (hescape : c ≠ escapeMark)
      (hbody : BodyOf value body) :
      BodyOf (c :: value) (c :: body)
  | pair
      {c : Char} {value body : List Char}
      (hbody : BodyOf value body) :
      BodyOf (c :: value) (escapeMark :: c :: body)

/-- The text spells the token. -/
inductive Spells : Token → List Char → Prop
  | punctuation (p : Punctuation) :
      Spells (.punctuation p) [p.char]
  | number
      {n : Decimal.Numeral}
      (hn : n.Lawful) :
      Spells (.number n.value) n.spelling
  | keyword
      {k : Keyword} {w : List Char}
      (hw : IsWord w)
      (hk : k.word = w) :
      Spells (.keyword k) w
  | identifier
      {w : List Char}
      (hw : IsWord w)
      (hk : ∀ k : Keyword, k.word ≠ w) :
      Spells (.identifier w) w
  | operator
      {w : List Char}
      (hw : IsSymbol w) :
      Spells (.operator w) w
  | string
      {value body : List Char}
      (hbody : BodyOf value body) :
      Spells (.string value) (stringMark :: (body ++ [stringMark]))

/-- The text spells a string without a closing mark; an escape mark at its end stands for
nothing. -/
inductive SpellsOpen : List Char → List Char → Prop
  | unended
      {value body : List Char}
      (hbody : BodyOf value body) :
      SpellsOpen value (stringMark :: body)
  | dangling
      {value body : List Char}
      (hbody : BodyOf value body) :
      SpellsOpen value (stringMark :: (body ++ [escapeMark]))

/-- The character makes a spelling of the token longer. -/
def Token.continues (spelling : List Char) (a : Char) : Token → Bool
  | punctuation _ => false
  | string _ => false
  | number _ => isDigit a || (a = '.' && !spelling.contains '.')
  | keyword _ => isIdentRest a
  | identifier _ => isIdentRest a
  | operator _ => isOperatorChar a

/-- In front of the rest, the spelling of the token is as long as it can be. -/
def EndsBefore (t : Token) (spelling rest : List Char) : Prop :=
  ∀ a ∈ rest.head?, t.continues spelling a = false

/-- Some token starts with the character. -/
def startsToken (c : Char) : Bool :=
  c = stringMark || isDigit c || isIdentStart c || isPunctuation c || isOperatorChar c

section Classes

theorem isDigit_eq_false_of_isIdentStart
    {c : Char}
    (h : isIdentStart c = true) :
    isDigit c = false := by
  by_contra hdigit
  simp only [isDigit, isIdentStart, Bool.and_eq_true, Bool.or_eq_true, decide_eq_true_eq,
    Bool.not_eq_false, Char.le_def, UInt32.le_iff_toNat_le, Char.reduceVal,
    UInt32.reduceToNat] at h hdigit
  rcases h with (((⟨hlow, _⟩ | ⟨hlow, _⟩) | rfl) | rfl) | rfl
  · omega
  · omega
  all_goals simp at hdigit

/-- A character of a class is none that the class leaves out. -/
theorem ne_of_class
    {p : Char → Bool} {c d : Char}
    (hc : p c = true)
    (hd : p d = false) :
    c ≠ d := by
  rintro rfl
  rw [hc] at hd
  cases hd

theorem eq_false_of_class
    {p q : Char → Bool} {c : Char}
    (hc : p c = true)
    (hpq : ∀ c, q c = true → p c = false) :
    q c = false := by
  by_contra hq
  rw [Bool.not_eq_false] at hq
  rw [hpq c hq] at hc
  cases hc

/-- An operator character belongs to no other class. -/
theorem classes_of_isOperatorChar
    {c : Char}
    (h : isOperatorChar c = true) :
    c ≠ stringMark ∧ isDigit c = false ∧ isIdentStart c = false ∧
      Punctuation.ofChar? c = none ∧ isIdentRest c = false := by
  simp only [isOperatorChar, operatorChars, List.contains_eq_mem, List.mem_cons,
    List.not_mem_nil, or_false, decide_eq_true_eq] at h
  rcases h with rfl | rfl | rfl | rfl | rfl | rfl | rfl | rfl | rfl | rfl | rfl <;> decide

/-- A punctuation mark belongs to no other class. -/
theorem classes_of_punctuation (p : Punctuation) :
    p.char ≠ stringMark ∧ isDigit p.char = false ∧ isIdentStart p.char = false ∧
      isOperatorChar p.char = false ∧ isIdentRest p.char = false := by
  cases p <;> decide

/-- No token starts with a blank or a comment mark. -/
theorem opensTrivia_eq_false_of_startsToken
    {c : Char}
    (h : startsToken c = true) :
    opensTrivia c = false := by
  by_contra htrivia
  simp only [opensTrivia, isBlank, Bool.not_eq_false, Bool.or_eq_true, decide_eq_true_eq] at htrivia
  rcases htrivia with ((rfl | rfl) | rfl) | rfl <;> revert h <;> decide

end Classes

namespace Text.Body

theorem read_append_stringMark
    {value body : List Char}
    (h : BodyOf value body)
    (rest : List Char) :
    read (body ++ stringMark :: rest) = ⟨value, body ++ [stringMark], true⟩ := by
  induction h with
  | empty => exact read_stringMark rest
  | @plain c value body hstring hescape _ ih =>
      rw [List.cons_append, read_cons _ hstring hescape, ih]
      rfl
  | @pair c value body _ ih =>
      rw [List.cons_append, List.cons_append, read_escapeMark, ih]
      rfl

/-- At the end of a text a body is all of it, with an escape mark behind it or not. -/
theorem read_append_end
    {value body tail : List Char}
    (h : BodyOf value body)
    (htail : tail = [] ∨ tail = [escapeMark]) :
    read (body ++ tail) = ⟨value, body ++ tail, false⟩ := by
  induction h with
  | empty => rcases htail with rfl | rfl <;> rfl
  | @plain c value body hstring hescape _ ih =>
      rw [List.cons_append, read_cons _ hstring hescape, ih]
      rfl
  | @pair c value body _ ih =>
      rw [List.cons_append, List.cons_append, read_escapeMark, ih]
      rfl

/-- Every text starts with a body: up to a string mark, or up to the end. -/
theorem exists_bodyOf (cs : List Char) :
    ∃ value body tail, cs = body ++ tail ∧ BodyOf value body ∧
      (tail = [] ∨ tail = [escapeMark] ∨ ∃ rest, tail = stringMark :: rest) := by
  fun_induction read cs with
  | case1 => exact ⟨[], [], [], rfl, .empty, Or.inl rfl⟩
  | case2 cs => exact ⟨[], [], stringMark :: cs, rfl, .empty, Or.inr (Or.inr ⟨cs, rfl⟩)⟩
  | case3 => exact ⟨[], [], [escapeMark], rfl, .empty, Or.inr (Or.inl rfl)⟩
  | case4 d ds _ ih =>
      obtain ⟨value, body, tail, rfl, hbody, htail⟩ := ih
      exact ⟨d :: value, escapeMark :: d :: body, tail, rfl, .pair hbody, htail⟩
  | case5 c cs hstring hescape ih =>
      obtain ⟨value, body, tail, rfl, hbody, htail⟩ := ih
      exact ⟨c :: value, c :: body, tail, rfl, .plain hstring hescape hbody, htail⟩

end Text.Body

namespace Decimal.Numeral

theorem point_notMem_of_digits
    {cs : List Char}
    (h : ∀ c ∈ cs, isDigit c = true) :
    '.' ∉ cs := by
  intro hpoint
  have hdigit := h '.' hpoint
  revert hdigit
  decide

theorem Lawful.contains_point
    {n : Numeral}
    (h : n.Lawful) :
    n.spelling.contains '.' = n.fraction.isSome := by
  have hwhole := point_notMem_of_digits h.whole_digits
  unfold spelling
  split <;> simp_all

/-- The first character of a numeral is a digit. -/
theorem Lawful.spelling_eq_cons
    {n : Numeral}
    (h : n.Lawful) :
    ∃ c cs, n.spelling = c :: cs ∧ isDigit c = true := by
  obtain ⟨c, cs, hwhole⟩ := List.exists_cons_of_ne_nil h.whole_ne_nil
  have hdigit : isDigit c = true := h.whole_digits c (by simp [hwhole])
  cases hfraction : n.fraction with
  | none => exact ⟨c, cs, by simp [spelling, hfraction, hwhole], hdigit⟩
  | some digits => exact ⟨c, cs ++ '.' :: digits, by simp [spelling, hfraction, hwhole], hdigit⟩

/-- A numeral that ends in front of a text is the longest one. -/
theorem read_spelling_append
    {n : Numeral} {rest : List Char}
    (h : n.Lawful)
    (hrest : ∀ a ∈ rest.head?, isDigit a = false ∧ (n.fraction = none → a ≠ '.')) :
    read (n.spelling ++ rest) = n := by
  have hdigit : ∀ a ∈ rest.head?, isDigit a = false := fun a ha => (hrest a ha).1
  obtain ⟨whole, fraction⟩ := n
  cases fraction with
  | none =>
      have hfront : (whole ++ rest).takeWhile isDigit = whole :=
        takeWhile_append_of_stop h.whole_digits hdigit
      have hback : (whole ++ rest).dropWhile isDigit = rest :=
        dropWhile_append_of_stop h.whole_digits hdigit
      simp only [spelling, read, hfront, hback]
      split
      · exact absurd rfl ((hrest '.' rfl).2 rfl)
      · rfl
  | some digits =>
      have hdigits : ∀ a ∈ digits, isDigit a = true := h.fraction_digits digits rfl
      have hstop : ∀ a ∈ ('.' :: (digits ++ rest)).head?, isDigit a = false := by
        rintro a ⟨⟩
        decide
      have hfront : (whole ++ '.' :: (digits ++ rest)).takeWhile isDigit = whole :=
        takeWhile_append_of_stop h.whole_digits hstop
      have hback : (whole ++ '.' :: (digits ++ rest)).dropWhile isDigit =
          '.' :: (digits ++ rest) :=
        dropWhile_append_of_stop h.whole_digits hstop
      have hbehind : (digits ++ rest).takeWhile isDigit = digits :=
        takeWhile_append_of_stop hdigits hdigit
      simp [spelling, read, hfront, hback, hbehind]

/-- The longest numeral in front of a text ends there. -/
theorem head?_of_read_spelling_append
    {cs rest : List Char} {a : Char}
    (h : cs = (read cs).spelling ++ rest)
    (ha : a ∈ rest.head?) :
    isDigit a = false ∧ ((read cs).fraction = none → a ≠ '.') := by
  have hsplit := List.takeWhile_append_dropWhile (p := isDigit) (l := cs)
  revert h
  unfold read
  split
  · next digits hback =>
      intro h
      have hdigits := List.takeWhile_append_dropWhile (p := isDigit) (l := digits)
      rw [hback] at hsplit
      simp only [spelling, List.append_assoc, List.cons_append] at h
      have hrest : digits = digits.takeWhile isDigit ++ rest := by
        simpa using hsplit.trans h
      have hdrop : digits.dropWhile isDigit = rest :=
        List.append_cancel_left (hdigits.trans hrest)
      rw [← hdrop] at ha
      exact ⟨head?_dropWhile_eq_false ha, fun hnone => absurd hnone (by simp)⟩
  · next hback =>
      intro h
      have hdrop : cs.dropWhile isDigit = rest := List.append_cancel_left (hsplit.trans h)
      rw [← hdrop] at ha
      refine ⟨head?_dropWhile_eq_false ha, ?_⟩
      rintro - rfl
      obtain ⟨digits, hdigits⟩ := List.head?_eq_some_iff.mp ha
      exact hback digits hdigits

theorem lawful_read
    {c : Char} {cs : List Char}
    (hc : isDigit c = true) :
    (read (c :: cs)).Lawful := by
  have hwhole : (c :: cs).takeWhile isDigit ≠ [] := by simp [hc]
  have hdigits (ds : List Char) : ∀ a ∈ ds.takeWhile isDigit, isDigit a = true :=
    fun a ha => List.mem_takeWhile_imp ha
  unfold read
  split
  · next rest _ =>
      refine ⟨hwhole, hdigits _, ?_⟩
      rintro digits ⟨⟩
      exact hdigits rest
  · exact ⟨hwhole, hdigits _, by simp⟩

end Decimal.Numeral

namespace Token

theorem ofWord_word (k : Keyword) :
    ofWord k.word = keyword k := by
  simp [ofWord]

theorem ofWord_eq_identifier
    {w : List Char}
    (h : ∀ k : Keyword, k.word ≠ w) :
    ofWord w = identifier w := by
  unfold ofWord
  split
  · next k hk => exact absurd (Keyword.word_of_ofWord? hk) (h k)
  · rfl

/-- Every word spells its token. -/
theorem spells_ofWord
    {w : List Char}
    (hw : IsWord w) :
    Spells (ofWord w) w := by
  by_cases h : ∃ k : Keyword, k.word = w
  · obtain ⟨k, rfl⟩ := h
    rw [ofWord_word]
    exact .keyword hw rfl
  · rw [not_exists] at h
    rw [ofWord_eq_identifier h]
    exact .identifier hw h

theorem continues_ofWord (w spelling : List Char) (a : Char) :
    (ofWord w).continues spelling a = isIdentRest a := by
  unfold ofWord
  split <;> rfl

end Token

/-- A numeral ends in front of what is no digit, and no point if it has none. -/
theorem endsBefore_number_iff
    {n : Decimal.Numeral} {rest : List Char}
    (hn : n.Lawful) :
    EndsBefore (.number n.value) n.spelling rest ↔
      ∀ a ∈ rest.head?, isDigit a = false ∧ (n.fraction = none → a ≠ '.') := by
  unfold EndsBefore
  simp only [Token.continues, hn.contains_point]
  cases n.fraction <;> simp

/-- A spelling is not empty, and its first character starts a token. -/
theorem Spells.exists_eq_cons
    {t : Token} {l : List Char}
    (h : Spells t l) :
    ∃ c cs, l = c :: cs ∧ startsToken c = true := by
  have hword {w : List Char} (hw : IsWord w) : ∃ c cs, w = c :: cs ∧ startsToken c = true := by
    cases w with
    | nil => exact absurd hw id
    | cons c cs => exact ⟨c, cs, rfl, by simp [startsToken, hw.1]⟩
  cases h with
  | punctuation p => exact ⟨p.char, [], rfl, by simp [startsToken, isPunctuation]⟩
  | number hn =>
      obtain ⟨c, cs, hspelling, hc⟩ := hn.spelling_eq_cons
      exact ⟨c, cs, hspelling, by simp [startsToken, hc]⟩
  | keyword hw _ => exact hword hw
  | identifier hw _ => exact hword hw
  | operator hw =>
      obtain ⟨c, cs, rfl⟩ := List.exists_cons_of_ne_nil hw.1
      exact ⟨c, cs, rfl, by simp [startsToken, hw.2 c (by simp)]⟩
  | string _ => exact ⟨stringMark, _, rfl, rfl⟩

theorem SpellsOpen.exists_eq_cons
    {value l : List Char}
    (h : SpellsOpen value l) :
    ∃ c cs, l = c :: cs ∧ startsToken c = true := by
  cases h with
  | unended _ => exact ⟨stringMark, _, rfl, rfl⟩
  | dangling _ => exact ⟨stringMark, _, rfl, rfl⟩

namespace Lexeme

theorem read?_word
    {w rest : List Char}
    (hw : IsWord w)
    (hrest : ∀ a ∈ rest.head?, isIdentRest a = false) :
    read? (w ++ rest) = some ⟨.ofWord w, w, true⟩ := by
  cases w with
  | nil => exact absurd hw id
  | cons c cs =>
      have hall : ∀ a ∈ c :: cs, isIdentRest a = true := by
        intro a ha
        rcases List.mem_cons.mp ha with rfl | ha
        · exact isIdentRest_of_isIdentStart hw.1
        · exact hw.2 a ha
      have htake : (c :: (cs ++ rest)).takeWhile isIdentRest = c :: cs :=
        takeWhile_append_of_stop hall hrest
      rw [List.cons_append, read?, if_neg (ne_of_class hw.1 (by decide)),
        isDigit_eq_false_of_isIdentStart hw.1, if_neg Bool.false_ne_true, if_pos hw.1, htake]

/-- A spelling that ends in front of a text is what is read in front of it. -/
theorem read?_of_spells
    {t : Token} {l rest : List Char}
    (h : Spells t l)
    (hend : EndsBefore t l rest) :
    read? (l ++ rest) = some ⟨t, l, true⟩ := by
  cases h with
  | punctuation p =>
      obtain ⟨hstring, hdigit, hstart, _, _⟩ := classes_of_punctuation p
      simp [read?, hstring, hdigit, hstart]
  | @number n hn =>
      have hread := Decimal.Numeral.read_spelling_append hn ((endsBefore_number_iff hn).mp hend)
      obtain ⟨c, cs, hspelling, hc⟩ := hn.spelling_eq_cons
      have hcons : n.spelling ++ rest = c :: (cs ++ rest) := by simp [hspelling]
      rw [hcons] at hread ⊢
      rw [read?, if_neg (ne_of_class hc (by decide)), if_pos hc, hread]
  | @keyword k w hw hk =>
      subst hk
      rw [read?_word hw hend, Token.ofWord_word]
  | identifier hw hk => rw [read?_word hw hend, Token.ofWord_eq_identifier hk]
  | operator hw =>
      obtain ⟨c, cs, rfl⟩ := List.exists_cons_of_ne_nil hw.1
      have hc : isOperatorChar c = true := hw.2 c (by simp)
      obtain ⟨hstring, hdigit, hstart, hmark, _⟩ := classes_of_isOperatorChar hc
      have htake : (c :: (cs ++ rest)).takeWhile isOperatorChar = c :: cs :=
        takeWhile_append_of_stop hw.2 hend
      simp [read?, hstring, hdigit, hstart, hmark, hc, htake]
  | string hbody =>
      have hread := Text.Body.read_append_stringMark hbody rest
      simp [read?, hread]

theorem read?_of_spellsOpen
    {value l : List Char}
    (h : SpellsOpen value l) :
    read? l = some ⟨.string value, l, false⟩ := by
  cases h with
  | unended hbody =>
      have hread := Text.Body.read_append_end hbody (Or.inl rfl)
      rw [List.append_nil] at hread
      simp [read?, hread]
  | dangling hbody =>
      have hread := Text.Body.read_append_end hbody (Or.inr rfl)
      simp [read?, hread]

theorem read?_eq_none
    {c : Char}
    (h : startsToken c = false)
    (cs : List Char) :
    read? (c :: cs) = none := by
  simp only [startsToken, Bool.or_eq_false_iff, decide_eq_false_iff_not, isPunctuation,
    Option.isSome_eq_false_iff, Option.isNone_iff_eq_none] at h
  obtain ⟨⟨⟨⟨hstring, hdigit⟩, hstart⟩, hmark⟩, hoperator⟩ := h
  simp [read?, hstring, hdigit, hstart, hmark, hoperator]

/-- In front of every text stands a spelling that ends there, or all of it is a string without a
closing mark, or its first character starts no token. -/
theorem spells_or_startsToken_eq_false (c : Char) (cs : List Char) :
    (∃ t l rest, c :: cs = l ++ rest ∧ Spells t l ∧ EndsBefore t l rest) ∨
    (∃ value, SpellsOpen value (c :: cs)) ∨
    startsToken c = false := by
  by_cases hstring : c = stringMark
  · subst hstring
    obtain ⟨value, body, tail, rfl, hbody, rfl | rfl | ⟨rest, rfl⟩⟩ := Text.Body.exists_bodyOf cs
    · exact Or.inr (Or.inl ⟨value, by simpa using SpellsOpen.unended hbody⟩)
    · exact Or.inr (Or.inl ⟨value, .dangling hbody⟩)
    · exact Or.inl ⟨_, _, rest, by simp, .string hbody, fun _ _ => rfl⟩
  by_cases hdigit : isDigit c = true
  · obtain ⟨rest, hrest⟩ := Decimal.Numeral.exists_eq_spelling_append (c :: cs)
    have hlawful : (Decimal.Numeral.read (c :: cs)).Lawful := Decimal.Numeral.lawful_read hdigit
    refine Or.inl ⟨_, _, rest, hrest, .number hlawful, (endsBefore_number_iff hlawful).mpr ?_⟩
    intro a ha
    exact Decimal.Numeral.head?_of_read_spelling_append hrest ha
  by_cases hstart : isIdentStart c = true
  · have hword : IsWord (c :: cs.takeWhile isIdentRest) := by
      constructor
      · exact hstart
      · intro a ha
        exact List.mem_takeWhile_imp ha
    refine Or.inl ⟨_, _, cs.dropWhile isIdentRest, ?_, Token.spells_ofWord hword, ?_⟩
    · simp
    · intro a ha
      rw [Token.continues_ofWord]
      exact head?_dropWhile_eq_false ha
  cases hmark : Punctuation.ofChar? c with
  | some p =>
      obtain rfl := Punctuation.char_of_ofChar? hmark
      exact Or.inl ⟨_, _, cs, rfl, .punctuation p, fun _ _ => rfl⟩
  | none =>
      by_cases hoperator : isOperatorChar c = true
      · have hsymbol : IsSymbol (c :: cs.takeWhile isOperatorChar) := by
          constructor
          · simp
          · intro a ha
            rcases List.mem_cons.mp ha with rfl | ha
            · exact hoperator
            · exact List.mem_takeWhile_imp ha
        refine Or.inl ⟨_, _, cs.dropWhile isOperatorChar, ?_, .operator hsymbol, ?_⟩
        · simp
        · intro a ha
          exact head?_dropWhile_eq_false ha
      · simp [startsToken, hstring, hdigit, hstart, isPunctuation, hmark, hoperator]

end Lexeme
end TokenStream
