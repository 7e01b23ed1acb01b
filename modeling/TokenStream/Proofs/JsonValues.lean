import TokenStream.Proofs.JsonStrings

/-!
# Passing over values

The reader that passes over a value of any depth accepts exactly the values of the grammar.
A number ends where no character of a number goes on, so that a value is passed over as a whole
only if what follows does not go on with it.

**Results** what a stack of open brackets still asks of the text is a relation on texts, and a run
that succeeds has passed over such a text; the other way round, by induction on the grammar, an
item is passed over whatever the stack.
-/

namespace TokenStream
namespace Json

/-- A text that does not go on with a number. -/
def Stops (rest : List Char) : Prop :=
  ∀ c ∈ rest.head?, isDigit c = false ∧ c ≠ '.' ∧ c ≠ 'e' ∧ c ≠ 'E'

theorem stops_cons
    {c : Char}
    (hc : isDigit c = false ∧ c ≠ '.' ∧ c ≠ 'e' ∧ c ≠ 'E')
    (rest : List Char) :
    Stops (c :: rest) := by
  rintro _ ⟨⟩
  exact hc

theorem Gap.stops_append
    {gap rest : List Char}
    (hgap : Gap gap)
    (hrest : Stops rest) :
    Stops (gap ++ rest) := by
  cases gap with
  | nil => exact hrest
  | cons c gap =>
      obtain rfl | rfl | rfl | rfl := hgap c List.mem_cons_self <;>
        exact stops_cons (by decide) _

theorem Gap.append
    {gap gap' : List Char}
    (h : Gap gap)
    (h' : Gap gap') :
    Gap (gap ++ gap') :=
  List.forall_mem_append.mpr ⟨h, h'⟩

theorem Lead.append
    {first : Bool} {lead gap : List Char}
    (hlead : Lead first lead)
    (hgap : Gap gap) :
    Lead first (lead ++ gap) := by
  cases hlead with
  | first h => exact .first (h.append hgap)
  | comma h h' =>
      rw [List.append_assoc, List.cons_append]
      exact .comma h (h'.append hgap)

theorem Bracket.stops_close (b : Bracket) (rest : List Char) :
    Stops (b.close :: rest) := by
  cases b <;> exact stops_cons (by decide) _

theorem Items.stops_append
    {items : List (List Char)} {inner : List Char}
    (h : Items false items inner)
    (b : Bracket)
    (rest : List Char) :
    Stops (inner ++ b.close :: rest) := by
  cases h with
  | done hgap => exact hgap.stops_append (b.stops_close rest)
  | item hlead _ =>
      cases hlead with
      | comma hgap _ =>
          simp only [List.append_assoc, List.cons_append]
          exact hgap.stops_append (stops_cons (by decide) _)

namespace Input

variable {i j : Input} {c : Char} {r rest : List Char}

section Numbers

theorem digits_of_rest
    {ds : List Char}
    (hds : ∀ d ∈ ds, isDigit d = true)
    (hr : ∀ c ∈ r.head?, isDigit c = false)
    (hrest : i.rest = ds ++ r) :
    i.digits = ds ∧ i.skipDigits.rest = r := by
  rw [digits, skipDigits, skipWhile_rest, hrest]
  exact ⟨takeWhile_append_of_stop hds hr, dropWhile_append_of_stop hds hr⟩

theorem rest_eq_digits_append (i : Input) :
    i.rest = i.digits ++ i.skipDigits.rest := by
  rw [digits, skipDigits, skipWhile_rest, List.takeWhile_append_dropWhile]

theorem isDigit_of_mem_digits (i : Input) :
    ∀ d ∈ i.digits, isDigit d = true :=
  fun _ hd => List.mem_takeWhile_imp hd

theorem digits_eq_nil_of_head
    (h : ∀ c ∈ i.rest.head?, isDigit c = false) :
    i.digits = [] := by
  have hsplit : i.rest = [] ++ i.rest := rfl
  exact (digits_of_rest (by simp) h hsplit).1

theorem exists_sign (i : Input) :
    ∃ sign, (sign = [] ∨ sign = ['+'] ∨ sign = ['-']) ∧ i.rest = sign ++ i.skipSign.rest := by
  rw [skipSign]
  split
  · next hsign =>
      simp only [Bool.or_eq_true, decide_eq_true_eq] at hsign
      obtain h | h := hsign
      · exact ⟨['+'], by simp, rest_eq_cons_of_peek h⟩
      · exact ⟨['-'], by simp, rest_eq_cons_of_peek h⟩
  · exact ⟨[], by simp, rfl⟩

theorem skipSign_rest
    {sign ds : List Char}
    (hsign : sign = [] ∨ sign = ['+'] ∨ sign = ['-'])
    (hds : Digits ds)
    (hrest : i.rest = sign ++ (ds ++ r)) :
    i.skipSign.rest = ds ++ r := by
  obtain rfl | rfl | rfl := hsign
  · obtain ⟨hne, hdigit⟩ := hds
    obtain ⟨d, ds, rfl⟩ := List.exists_cons_of_ne_nil hne
    have hd : isDigit d = true := hdigit d List.mem_cons_self
    have hplus : d ≠ '+' := by rintro rfl; exact absurd hd (by decide)
    have hminus : d ≠ '-' := by rintro rfl; exact absurd hd (by decide)
    have hpeek : i.peek = some d := peek_of_rest hrest
    simp [skipSign, hpeek, hplus, hminus, hrest]
  · simp [skipSign, peek_of_rest hrest, advance_rest hrest]
  · simp [skipSign, peek_of_rest hrest, advance_rest hrest]

theorem exists_of_skipExponent
    (h : i.skipExponent = .ok j) :
    ∃ text, IsExponent text ∧ i.rest = text ++ j.rest := by
  simp only [skipExponent] at h
  split at h
  · next hmark =>
      split at h
      · cases h
      · next hdigits =>
          cases h
          obtain ⟨sign, hsign, hrest⟩ := i.advance.exists_sign
          have hds : Digits i.advance.skipSign.digits :=
            ⟨by simpa using hdigits, isDigit_of_mem_digits _⟩
          have htail := i.advance.skipSign.rest_eq_digits_append
          simp only [atExponent, Bool.or_eq_true, decide_eq_true_eq] at hmark
          obtain he | he := hmark
          · refine ⟨_, .mark (.inl rfl) hsign hds, ?_⟩
            rw [rest_eq_cons_of_peek he, hrest, List.cons_append, List.append_assoc, ← htail]
          · refine ⟨_, .mark (.inr rfl) hsign hds, ?_⟩
            rw [rest_eq_cons_of_peek he, hrest, List.cons_append, List.append_assoc, ← htail]
  · cases h
    exact ⟨[], .none, rfl⟩

theorem leaves_skipExponent
    {text : List Char}
    (htext : IsExponent text)
    (hrest : Stops rest)
    (hi : i.rest = text ++ rest) :
    Leaves i.skipExponent rest := by
  cases htext with
  | none =>
      have hmark : i.atExponent = false := by
        simp only [atExponent, Bool.or_eq_false_iff, decide_eq_false_iff_not]
        refine ⟨fun h => ?_, fun h => ?_⟩ <;> rw [peek, hi] at h
        · exact (hrest 'e' h).2.2.1 rfl
        · exact (hrest 'E' h).2.2.2 rfl
      simp [skipExponent, hmark, hi]
  | @mark e sign ds he hsign hds =>
      rw [List.cons_append, List.append_assoc] at hi
      have hmark : i.atExponent = true := by
        simpa [atExponent, peek_of_rest hi] using he
      have hsigned := skipSign_rest hsign hds (advance_rest hi)
      obtain ⟨hdigits, hlast⟩ := digits_of_rest hds.2 (fun c hc => (hrest c hc).1) hsigned
      simp [skipExponent, hmark, hdigits, hds.1, hlast]

theorem exists_of_skipFraction
    (h : i.skipFraction = .ok j) :
    ∃ fraction exponent, IsFraction fraction ∧ IsExponent exponent ∧
      i.rest = fraction ++ (exponent ++ j.rest) := by
  simp only [skipFraction] at h
  split at h
  · next hpoint =>
      split at h
      · cases h
      · next hdigits =>
          obtain ⟨exponent, hexponent, htail⟩ := exists_of_skipExponent h
          have hds : Digits i.advance.digits :=
            ⟨by simpa using hdigits, isDigit_of_mem_digits _⟩
          refine ⟨_, exponent, .point hds, hexponent, ?_⟩
          rw [← htail, List.cons_append, ← rest_eq_digits_append]
          exact rest_eq_cons_of_peek hpoint
  · obtain ⟨exponent, hexponent, htail⟩ := exists_of_skipExponent h
    exact ⟨[], exponent, .none, hexponent, htail⟩

theorem IsExponent.head_append
    {exponent : List Char}
    (h : IsExponent exponent)
    (hrest : Stops rest) :
    ∀ c ∈ (exponent ++ rest).head?, isDigit c = false ∧ c ≠ '.' := by
  cases h with
  | none => exact fun c hc => ⟨(hrest c hc).1, (hrest c hc).2.1⟩
  | mark he _ _ =>
      rintro c ⟨⟩
      obtain rfl | rfl := he <;> decide

theorem IsFraction.head_append
    {fraction exponent : List Char}
    (h : IsFraction fraction)
    (hexponent : IsExponent exponent)
    (hrest : Stops rest) :
    ∀ c ∈ (fraction ++ (exponent ++ rest)).head?, isDigit c = false := by
  cases h with
  | none => exact fun c hc => (IsExponent.head_append hexponent hrest c hc).1
  | point _ =>
      rintro c ⟨⟩
      decide

theorem leaves_skipFraction
    {fraction exponent : List Char}
    (hfraction : IsFraction fraction)
    (hexponent : IsExponent exponent)
    (hrest : Stops rest)
    (hi : i.rest = fraction ++ (exponent ++ rest)) :
    Leaves i.skipFraction rest := by
  have hhead := IsExponent.head_append hexponent hrest
  cases hfraction with
  | none =>
      have hpoint : ¬ i.peek = some '.' := by
        intro h
        rw [peek, hi] at h
        exact (hhead '.' h).2 rfl
      rw [skipFraction, if_neg hpoint]
      exact leaves_skipExponent hexponent hrest hi
  | @point ds hds =>
      obtain ⟨hdigits, hlast⟩ :=
        digits_of_rest hds.2 (fun c hc => (hhead c hc).1) (advance_rest hi)
      have hpoint : i.peek = some '.' := peek_of_rest hi
      simp only [skipFraction, hpoint, if_true, hdigits, List.isEmpty_iff, hds.1, if_false]
      exact leaves_skipExponent hexponent hrest hlast

theorem exists_of_skipNumber
    (h : i.skipNumber = .ok j) :
    ∃ text, IsUnsigned text ∧ i.rest = text ++ j.rest := by
  simp only [skipNumber] at h
  split at h
  · cases h
  · next c hpeek =>
      split at h
      · next hzero =>
          split at h
          · obtain ⟨fraction, exponent, hfraction, hexponent, hrest⟩ := exists_of_skipFraction h
            refine ⟨_, .parts .zero hfraction hexponent, ?_⟩
            rw [rest_eq_cons_of_peek hpeek, hzero, hrest]
            simp
          · cases h
      · next hne =>
          split at h
          · next hdigit =>
              obtain ⟨fraction, exponent, hfraction, hexponent, hrest⟩ :=
                exists_of_skipFraction h
              have hds : i.digits = c :: i.advance.digits := by
                rw [digits, rest_eq_cons_of_peek hpeek, List.takeWhile_cons, if_pos hdigit]
                rfl
              have hwhole : IsWhole i.digits := by
                have hall := i.isDigit_of_mem_digits
                rw [hds] at hall ⊢
                exact .digits hne ⟨List.cons_ne_nil _ _, hall⟩
              refine ⟨_, .parts hwhole hfraction hexponent, ?_⟩
              rw [i.rest_eq_digits_append, hrest, List.append_assoc, List.append_assoc]
          · cases h

theorem leaves_skipNumber
    {text : List Char}
    (htext : IsUnsigned text)
    (hrest : Stops rest)
    (hi : i.rest = text ++ rest) :
    Leaves i.skipNumber rest := by
  obtain ⟨hwhole, hfraction, hexponent⟩ := htext
  have hhead := IsFraction.head_append hfraction hexponent hrest
  rw [List.append_assoc, List.append_assoc] at hi
  cases hwhole with
  | zero =>
      have hlast := advance_rest hi
      have hdigits : i.advance.digits = [] := digits_eq_nil_of_head (hlast ▸ hhead)
      simp only [skipNumber, peek_of_rest hi, hdigits, List.isEmpty_nil, if_true]
      exact leaves_skipFraction hfraction hexponent hrest hlast
  | @digits d ds hne hds =>
      obtain ⟨-, hlast⟩ := digits_of_rest hds.2 hhead hi
      have hdigit : isDigit d = true := hds.2 d List.mem_cons_self
      simp only [skipNumber, peek_of_rest hi, if_neg hne, hdigit, if_true]
      exact leaves_skipFraction hfraction hexponent hrest hlast

end Numbers

section Scalars

theorem exists_of_skipScalar
    (hpeek : i.peek = some c)
    (h : i.skipScalar c = .ok j) :
    ∃ v, IsScalar v ∧ i.rest = v ++ j.rest := by
  have hrest := rest_eq_cons_of_peek hpeek
  have hword (w : List Char) (hw : i.advance.skipWord w = .ok j) : i.advance.rest = w ++ j.rest :=
    (leaves_skipWord i.advance w j.rest).mp ⟨j, hw, rfl⟩
  simp only [skipScalar] at h
  split at h
  · next hc =>
      obtain ⟨body, hbody, htail⟩ := (leaves_skipString i.advance j.rest).mp ⟨j, h, rfl⟩
      exact ⟨_, .string hbody, by rw [hrest, htail, hc, quoted_append]⟩
  · split at h
    · next hc =>
        obtain ⟨text, htext, htail⟩ := exists_of_skipNumber h
        exact ⟨_, .number (.negative htext), by rw [hrest, htail, hc, List.cons_append]⟩
    · split at h
      · obtain ⟨text, htext, htail⟩ := exists_of_skipNumber h
        exact ⟨_, .number (.positive htext), htail⟩
      · split at h
        · next hc => exact ⟨_, .null, by rw [hrest, hc, hword _ h]; rfl⟩
        · split at h
          · next hc => exact ⟨_, .true, by rw [hrest, hc, hword _ h]; rfl⟩
          · split at h
            · next hc => exact ⟨_, .false, by rw [hrest, hc, hword _ h]; rfl⟩
            · cases h

theorem leaves_skipScalar
    {v : List Char}
    (hv : IsScalar v)
    (hrest : Stops rest)
    (hi : i.rest = v ++ rest) :
    ∃ c, i.peek = some c ∧ c ≠ '[' ∧ c ≠ '\x7b' ∧ Leaves (i.skipScalar c) rest := by
  cases hv with
  | null =>
      have hword := (leaves_skipWord i.advance ['u', 'l', 'l'] rest).mpr (advance_rest hi)
      exact ⟨'n', peek_of_rest hi, by decide, by decide, hword⟩
  | true =>
      have hword := (leaves_skipWord i.advance ['r', 'u', 'e'] rest).mpr (advance_rest hi)
      exact ⟨'t', peek_of_rest hi, by decide, by decide, hword⟩
  | false =>
      have hword := (leaves_skipWord i.advance ['a', 'l', 's', 'e'] rest).mpr (advance_rest hi)
      exact ⟨'f', peek_of_rest hi, by decide, by decide, hword⟩
  | string hbody =>
      rw [quoted_append] at hi
      have hstring := (leaves_skipString i.advance rest).mpr ⟨_, hbody, advance_rest hi⟩
      exact ⟨'"', peek_of_rest hi, by decide, by decide, hstring⟩
  | number hnumber =>
      cases hnumber with
      | positive htext =>
          obtain ⟨d, ds, rfl, hd⟩ := IsUnsigned.exists_eq_cons htext
          have hne (a : Char) (ha : isDigit a = false) : d ≠ a := by
            rintro rfl
            exact absurd hd (ha ▸ Bool.false_ne_true)
          refine ⟨d, peek_of_rest hi, hne _ (by decide), hne _ (by decide), ?_⟩
          rw [skipScalar, if_neg (hne _ (by decide)), if_neg (hne _ (by decide)), if_pos hd]
          exact leaves_skipNumber htext hrest hi
      | negative htext =>
          have hnumber := leaves_skipNumber htext hrest (advance_rest hi)
          exact ⟨'-', peek_of_rest hi, by decide, by decide, hnumber⟩

end Scalars

section Soundness

/-- What is asked of the text where this is due inside the open brackets, innermost first, if
`rest` is left in the end. -/
inductive Meets (rest : List Char) : Due → List Bracket → List Char → Prop
  | value
      {stack : List Bracket} {gap v t : List Char}
      (hgap : Gap gap)
      (hv : IsValue v)
      (ht : Meets rest (.next false) stack t) :
      Meets rest .value stack (gap ++ (v ++ t))
  | nothing
      {opened : Bool} :
      Meets rest (.next opened) [] rest
  | bracket
      {opened : Bool} {b : Bracket} {outer : List Bracket} {items : List (List Char)}
      {inner t : List Char}
      (h : Items opened items inner)
      (hitems : ∀ item ∈ items, IsItem b item)
      (ht : Meets rest (.next false) outer t) :
      Meets rest (.next opened) (b :: outer) (inner ++ b.close :: t)

section Meets

variable {stack outer : List Bracket} {b : Bracket} {opened : Bool} {gap lead t : List Char}

theorem Meets.value_of_opened
    (h : Meets rest (.next true) (b :: stack) t)
    (hgap : Gap gap) :
    Meets rest .value stack (gap ++ b.opening :: t) := by
  cases h with
  | bracket hinner hitems ht =>
      rw [← Bracket.around_append]
      exact .value hgap (.bracket hinner hitems) ht

/-- An item behind its lead, and what is asked behind it. -/
theorem Meets.of_item
    {item : List Char}
    (h : Meets rest (.next false) (b :: outer) t)
    (hlead : Lead opened lead)
    (hitem : IsItem b item) :
    Meets rest (.next opened) (b :: outer) (lead ++ (item ++ t)) := by
  cases h with
  | bracket hitems hall ht =>
      have hmore := Meets.bracket (Items.item hlead hitems) (List.forall_mem_cons.mpr ⟨hitem, hall⟩)
        ht
      simpa using hmore

/-- What stands in front of the value of an item makes an item of the value. -/
theorem Meets.exists_item
    (h : Meets rest .value stack j.rest)
    (hstart : i.skipMemberStart b = .ok j) :
    ∃ gap item t, Gap gap ∧ IsItem b item ∧ Meets rest (.next false) stack t ∧
      i.rest = gap ++ (item ++ t) := by
  generalize hrest : j.rest = s at h
  cases h with
  | @value _ behind v t hbehind hv ht =>
      cases b with
      | list =>
          obtain rfl : i = j := Except.ok.inj hstart
          exact ⟨behind, v, t, hbehind, hv, ht, hrest⟩
      | object =>
          obtain ⟨gap, body, before, hgap, hbody, hbefore, hi⟩ :=
            (leaves_skipKey i j.rest).mp ⟨j, hstart, rfl⟩
          refine ⟨gap, Member.text ⟨body, before, behind, v⟩, t, hgap,
            .member hbody ⟨hbefore, hbehind⟩ hv, ht, ?_⟩
          rw [hi, hrest]
          simp [Member.text]

end Meets

/-- **Soundness.** A run that succeeds has passed over what was asked for. -/
theorem meets_of_skipDue
    {due : Due} {stack : List Bracket}
    (h : i.skipDue due stack = .ok j) :
    Meets j.rest due stack i.rest := by
  fun_induction skipDue i due stack with
  | case2 i stack k hpeek ih =>
      obtain ⟨gap, hgap, hi⟩ := i.exists_gap
      rw [hi, rest_eq_cons_of_peek hpeek]
      exact (ih h).value_of_opened hgap
  | case3 i stack k hpeek _ ih =>
      obtain ⟨gap, hgap, hi⟩ := i.exists_gap
      rw [hi, rest_eq_cons_of_peek hpeek]
      exact (ih h).value_of_opened hgap
  | case5 i stack k c hpeek _ _ l hscalar ih =>
      obtain ⟨gap, hgap, hi⟩ := i.exists_gap
      obtain ⟨v, hv, hk⟩ := exists_of_skipScalar hpeek hscalar
      rw [hi, hk]
      exact .value hgap (.scalar hv) (ih h)
  | case6 i opened =>
      obtain rfl : i = j := Except.ok.inj h
      exact .nothing
  | case8 i opened b outer k hpeek ih =>
      obtain ⟨gap, hgap, hi⟩ := i.exists_gap
      rw [hi, rest_eq_cons_of_peek hpeek]
      exact .bracket (.done hgap) (List.forall_mem_nil _) (ih h)
  | case10 i opened b outer k c hpeek _ hcomma l hstart ih =>
      obtain ⟨rfl, rfl⟩ : c = ',' ∧ opened = false := by simpa using hcomma
      obtain ⟨gap, hgap, hi⟩ := i.exists_gap
      obtain ⟨gap', item, t, hgap', hitem, ht, hk⟩ := (ih h).exists_item hstart
      have hmeets := ht.of_item (.comma hgap hgap') hitem
      rw [hi, rest_eq_cons_of_peek hpeek, hk]
      simpa using hmeets
  | case12 i b outer k c hpeek _ l hstart _ ih =>
      obtain ⟨gap, hgap, hi⟩ := i.exists_gap
      obtain ⟨gap', item, t, hgap', hitem, ht, hk⟩ := (ih h).exists_item hstart
      have hmeets := ht.of_item (.first (hgap.append hgap')) hitem
      rw [hi, hk]
      simpa using hmeets
  | _ => cases h

theorem exists_of_skipValue
    (h : i.skipValue = .ok j) :
    ∃ gap v, Gap gap ∧ IsValue v ∧ i.rest = gap ++ (v ++ j.rest) := by
  have hmeets := meets_of_skipDue h
  generalize hi : i.rest = s at hmeets
  cases hmeets with
  | value hgap hv ht =>
      cases ht with
      | nothing => exact ⟨_, _, hgap, hv, rfl⟩

end Soundness

section Completeness

/-- An item is passed over behind any gap and inside any brackets. -/
def Passed (b : Bracket) (item : List Char) : Prop :=
  ∀ (i : Input) (stack : List Bracket) (gap rest : List Char), Gap gap → Stops rest →
    i.rest = gap ++ (item ++ rest) →
    ∃ j k : Input, i.skipMemberStart b = .ok j ∧
      j.skipDue .value stack = k.skipDue (.next false) stack ∧ k.rest = rest

variable {b : Bracket} {stack : List Bracket} {gap item inner v : List Char}
variable {items : List (List Char)}

theorem IsScalar.exists_head
    (h : IsScalar v) :
    ∃ c cs, v = c :: cs ∧ isBlank c = false ∧ ∀ b : Bracket, c ≠ b.close := by
  cases h with
  | number h =>
      cases h with
      | positive h =>
          obtain ⟨d, ds, rfl, hd⟩ := IsUnsigned.exists_eq_cons h
          have hne (a : Char) (ha : isDigit a = false) : d ≠ a := by
            rintro rfl
            exact absurd hd (ha ▸ Bool.false_ne_true)
          refine ⟨d, ds, rfl, ?_, fun b => ?_⟩
          · simp [isBlank, hne ' ', hne '\n', hne '\t', hne '\r', isDigit]
          · cases b <;> exact hne _ (by decide)
      | negative h => exact ⟨_, _, rfl, by decide, fun b => by cases b <;> decide⟩
  | _ => exact ⟨_, _, rfl, by decide, fun b => by cases b <;> decide⟩

/-- The start of an item is neither a blank nor a closing bracket. -/
theorem IsItem.exists_head
    (h : IsItem b item) :
    ∃ c cs, item = c :: cs ∧ isBlank c = false ∧ ∀ b : Bracket, c ≠ b.close := by
  cases h with
  | scalar h => exact IsScalar.exists_head h
  | @bracket inside _ _ _ _ =>
      cases inside <;> exact ⟨_, _, rfl, by decide, fun b => by cases b <;> decide⟩
  | member _ _ _ => exact ⟨_, _, rfl, by decide, fun b => by cases b <;> decide⟩

/-- Blanks in front of an item end where the item starts. -/
theorem skipBlanks_rest_of_isItem
    (h : IsItem b item)
    (hgap : Gap gap)
    (hi : i.rest = gap ++ (item ++ r)) :
    i.skipBlanks.rest = item ++ r := by
  obtain ⟨c, cs, rfl, hc, -⟩ := IsItem.exists_head h
  refine skipBlanks_rest hgap hi ?_
  rintro _ ⟨⟩
  exact hc

section Steps

variable {k : Input} {opened : Bool}

theorem skipDue_scalar
    (hpeek : i.skipBlanks.peek = some c)
    (hlist : c ≠ '[')
    (hobject : c ≠ '\x7b')
    (hk : i.skipBlanks.skipScalar c = .ok k) :
    i.skipDue .value stack = k.skipDue (.next false) stack := by
  rw [skipDue]
  split
  · next hnone => simp [hpeek] at hnone
  · next d hd =>
      obtain rfl : c = d := Option.some.inj (hpeek.symm.trans hd)
      rw [if_neg hlist, if_neg hobject]
      split
      · next e he => simp [hk] at he
      · next l hl =>
          obtain rfl : k = l := Except.ok.inj (hk.symm.trans hl)
          rfl

theorem skipDue_opening
    (hpeek : i.skipBlanks.peek = some b.opening) :
    i.skipDue .value stack = i.skipBlanks.advance.skipDue (.next true) (b :: stack) := by
  rw [skipDue]
  split
  · next hnone => simp [hpeek] at hnone
  · next d hd =>
      obtain rfl : b.opening = d := Option.some.inj (hpeek.symm.trans hd)
      cases b <;> rfl

theorem skipDue_close
    (hpeek : i.skipBlanks.peek = some b.close) :
    i.skipDue (.next opened) (b :: stack) = i.skipBlanks.advance.skipDue (.next false) stack := by
  rw [skipDue]
  split
  · next hnone => simp [hpeek] at hnone
  · next d hd =>
      obtain rfl : b.close = d := Option.some.inj (hpeek.symm.trans hd)
      rw [if_pos rfl]

theorem skipDue_comma
    (hpeek : i.skipBlanks.peek = some ',')
    (hk : i.skipBlanks.advance.skipMemberStart b = .ok k) :
    i.skipDue (.next false) (b :: stack) = k.skipDue .value (b :: stack) := by
  conv_lhs => rw [skipDue]
  split
  · next hnone => simp [hpeek] at hnone
  · next d hd =>
      obtain rfl : ',' = d := Option.some.inj (hpeek.symm.trans hd)
      rw [if_neg (by cases b <;> decide), if_pos (by decide)]
      split
      · next e he => simp [hk] at he
      · next l hl =>
          obtain rfl : k = l := Except.ok.inj (hk.symm.trans hl)
          rfl

theorem skipDue_first
    (hpeek : i.skipBlanks.peek = some c)
    (hc : c ≠ b.close)
    (hk : i.skipBlanks.skipMemberStart b = .ok k) :
    i.skipDue (.next true) (b :: stack) = k.skipDue .value (b :: stack) := by
  conv_lhs => rw [skipDue]
  split
  · next hnone => simp [hpeek] at hnone
  · next d hd =>
      obtain rfl : c = d := Option.some.inj (hpeek.symm.trans hd)
      rw [if_neg hc, if_neg (by simp), if_pos rfl]
      split
      · next e he => simp [hk] at he
      · next l hl =>
          obtain rfl : k = l := Except.ok.inj (hk.symm.trans hl)
          rfl

end Steps

theorem skipBlanks_rest_of_close
    (hgap : Gap gap)
    (hi : i.rest = gap ++ b.close :: rest) :
    i.skipBlanks.rest = b.close :: rest := by
  refine skipBlanks_rest hgap hi ?_
  rintro _ ⟨⟩
  cases b <;> decide

theorem passed_of_isScalar
    (h : IsScalar v) :
    Passed .list v := by
  intro i stack gap rest hgap hrest hi
  have hblanks := skipBlanks_rest_of_isItem (.scalar h) hgap hi
  obtain ⟨c, hpeek, hlist, hobject, k, hk, hkrest⟩ := leaves_skipScalar h hrest hblanks
  exact ⟨i, k, rfl, skipDue_scalar hpeek hlist hobject hk, hkrest⟩

/-- What is in front of an item is passed over, in front of its value even if it has a name. -/
theorem exists_skipDue_lead
    {opened : Bool} {lead : List Char}
    (stack : List Bracket)
    (hlead : Lead opened lead)
    (hitem : IsItem b item)
    (hpassed : Passed b item)
    (hrest : Stops rest)
    (hi : i.rest = lead ++ (item ++ rest)) :
    ∃ k : Input, i.skipDue (.next opened) (b :: stack) = k.skipDue (.next false) (b :: stack) ∧
      k.rest = rest := by
  cases hlead with
  | first hgap =>
      have hblanks := skipBlanks_rest_of_isItem hitem hgap hi
      obtain ⟨c, cs, rfl, -, hclose⟩ := IsItem.exists_head hitem
      obtain ⟨j, k, hj, hk, hkrest⟩ :=
        hpassed i.skipBlanks (b :: stack) [] rest gap_nil hrest hblanks
      exact ⟨k, (skipDue_first (peek_of_rest hblanks) (hclose b) hj).trans hk, hkrest⟩
  | comma hgap hgap' =>
      simp only [List.append_assoc, List.cons_append] at hi
      have hblanks := (skipBlanks_rest_eq_cons_iff (by decide)).mpr ⟨_, hgap, hi⟩
      obtain ⟨j, k, hj, hk, hkrest⟩ :=
        hpassed i.skipBlanks.advance (b :: stack) _ rest hgap' hrest (advance_rest hblanks)
      exact ⟨k, (skipDue_comma (peek_of_rest hblanks) hj).trans hk, hkrest⟩

/-- A bracket is closed behind the items that are ahead. -/
theorem exists_skipDue_items
    {opened : Bool}
    (stack : List Bracket)
    (h : Items opened items inner)
    (hitems : ∀ item ∈ items, IsItem b item)
    (hpassed : ∀ item ∈ items, Passed b item)
    (hi : i.rest = inner ++ b.close :: rest) :
    ∃ k : Input, i.skipDue (.next opened) (b :: stack) = k.skipDue (.next false) stack ∧
      k.rest = rest := by
  induction h generalizing i with
  | done hgap =>
      have hblanks := skipBlanks_rest_of_close hgap hi
      exact ⟨_, skipDue_close (peek_of_rest hblanks), advance_rest hblanks⟩
  | item hlead hmore ih =>
      obtain ⟨hitem, hitems⟩ := List.forall_mem_cons.mp hitems
      obtain ⟨hfirst, hpassed⟩ := List.forall_mem_cons.mp hpassed
      simp only [List.append_assoc] at hi
      obtain ⟨k, hk, hkrest⟩ := exists_skipDue_lead stack hlead hitem hfirst
        (hmore.stops_append b rest) hi
      obtain ⟨last, hlast, hlastrest⟩ := ih hitems hpassed hkrest
      exact ⟨last, hk.trans hlast, hlastrest⟩

/-- **Completeness.** Every item is passed over. -/
theorem passed_of_isItem
    (h : IsItem b item) :
    Passed b item := by
  induction h with
  | scalar h => exact passed_of_isScalar h
  | @bracket inside items inner hjoined hitems ih =>
      intro i stack gap rest hgap hrest hi
      have hblanks := skipBlanks_rest_of_isItem (.bracket hjoined hitems) hgap hi
      rw [Bracket.around_append] at hblanks
      obtain ⟨k, hk, hkrest⟩ :=
        exists_skipDue_items stack hjoined hitems ih (advance_rest hblanks)
      exact ⟨i, k, rfl, (skipDue_opening (peek_of_rest hblanks)).trans hk, hkrest⟩
  | @member m hbody hspaced hvalue ih =>
      intro i stack gap rest hgap hrest hi
      have hkey : i.rest = gap ++ (quoted m.body ++
          (m.before ++ ':' :: (m.behind ++ (m.value ++ rest)))) := by
        simpa [Member.text] using hi
      obtain ⟨j, hj, hjrest⟩ := (leaves_skipKey i _).mpr
        ⟨gap, m.body, m.before, hgap, hbody, hspaced.before, hkey⟩
      obtain ⟨_, k, ⟨⟩, hk, hkrest⟩ := ih j stack m.behind rest hspaced.behind hrest hjrest
      exact ⟨j, k, hj, hk, hkrest⟩

theorem leaves_skipValue
    (hgap : Gap gap)
    (hv : IsValue v)
    (hrest : Stops rest)
    (hi : i.rest = gap ++ (v ++ rest)) :
    Leaves i.skipValue rest := by
  obtain ⟨_, k, ⟨⟩, hk, hkrest⟩ := passed_of_isItem hv i [] gap rest hgap hrest hi
  rw [skipValue, hk, skipDue]
  exact leaves_ok.mpr hkrest

end Completeness
end Input
end Json
end TokenStream
