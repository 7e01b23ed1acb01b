import TokenStream.Proofs.JsonGrammar
import TokenStream.Proofs.Separator

/-!
# Reading words and strings

What the readers of words, colons and strings accept, each as an equivalence with the grammar: a
reader gives a value and leaves a text ahead if and only if the text ahead was a text of the
grammar with this value and then the text that is left. The marks play no part in it.

**Results** gaps are passed over as a whole; both readers of strings accept exactly the bodies of
the grammar, the one all of them and the other those that denote something.
-/

namespace TokenStream
namespace Json

variable {ε α β : Type}

/-- A reader gives `a` and leaves `rest` ahead. -/
def Gives (r : Except ε (α × Input)) (a : α) (rest : List Char) : Prop :=
  ∃ j, r = .ok (a, j) ∧ j.rest = rest

/-- A reader that gives nothing leaves `rest` ahead. -/
def Leaves (r : Except ε Input) (rest : List Char) : Prop :=
  ∃ j, r = .ok j ∧ j.rest = rest

section Outcomes

variable {a b : α} {j : Input} {rest rest' : List Char} {e : ε}

@[simp] theorem gives_ok :
    Gives (.ok (a, j) : Except ε (α × Input)) b rest ↔ a = b ∧ j.rest = rest := by
  simp [Gives, and_assoc]

@[simp] theorem not_gives_error :
    ¬ Gives (.error e : Except ε (α × Input)) a rest :=
  nofun

@[simp] theorem leaves_ok :
    Leaves (.ok j : Except ε Input) rest ↔ j.rest = rest := by
  simp [Leaves]

@[simp] theorem not_leaves_error :
    ¬ Leaves (.error e : Except ε Input) rest :=
  nofun

theorem Gives.unique
    {r : Except ε (α × Input)}
    (h : Gives r a rest)
    (h' : Gives r b rest') :
    a = b ∧ rest = rest' := by
  obtain ⟨j, rfl, rfl⟩ := h
  simpa using h'

end Outcomes

namespace Input

variable {i : Input} {c : Char} {r rest : List Char}

theorem peek_of_rest
    (h : i.rest = c :: r) :
    i.peek = some c := by
  rw [peek, h, List.head?_cons]

theorem peek_of_rest_nil
    (h : i.rest = []) :
    i.peek = none := by
  rw [peek, h, List.head?_nil]

theorem rest_eq_nil_of_peek
    (h : i.peek = none) :
    i.rest = [] :=
  List.head?_eq_none_iff.mp h

theorem advance_rest
    (h : i.rest = c :: r) :
    i.advance.rest = r := by
  simp [advance, skip, h]

theorem rest_eq_cons_of_peek
    (h : i.peek = some c) :
    i.rest = c :: i.advance.rest := by
  cases hrest : i.rest with
  | nil => simp [peek, hrest] at h
  | cons d r =>
      rw [advance_rest hrest]
      simpa [peek, hrest] using h

theorem skipWhile_rest (i : Input) (p : Char → Bool) :
    (i.skipWhile p).rest = i.rest.dropWhile p := by
  have hsplit := List.takeWhile_append_dropWhile (p := p) (l := i.rest)
  have hdrop : (i.rest.takeWhile p ++ i.rest.dropWhile p).drop (i.rest.takeWhile p).length =
      i.rest.dropWhile p := List.drop_left
  rwa [hsplit] at hdrop

section Gaps

/-- Blanks ahead are passed over as a whole. -/
theorem skipBlanks_rest
    {gap : List Char}
    (hgap : Gap gap)
    (hrest : i.rest = gap ++ r)
    (hr : ∀ c ∈ r.head?, isBlank c = false) :
    i.skipBlanks.rest = r := by
  rw [skipBlanks, skipWhile_rest, hrest]
  exact dropWhile_append_of_stop ((gap_iff gap).mp hgap) hr

theorem exists_gap (i : Input) :
    ∃ gap, Gap gap ∧ i.rest = gap ++ i.skipBlanks.rest := by
  refine ⟨i.rest.takeWhile isBlank, ?_, ?_⟩
  · rw [gap_iff]
    exact fun c hc => List.mem_takeWhile_imp hc
  · rw [skipBlanks, skipWhile_rest, List.takeWhile_append_dropWhile]

theorem skipBlanks_rest_eq_cons_iff
    (hc : isBlank c = false) :
    i.skipBlanks.rest = c :: rest ↔ ∃ gap, Gap gap ∧ i.rest = gap ++ c :: rest := by
  constructor
  · intro h
    obtain ⟨gap, hgap, hrest⟩ := i.exists_gap
    exact ⟨gap, hgap, h ▸ hrest⟩
  · rintro ⟨gap, hgap, hrest⟩
    refine skipBlanks_rest hgap hrest ?_
    rintro _ ⟨⟩
    exact hc

end Gaps

section Words

theorem leaves_skipWord (i : Input) (cs rest : List Char) :
    Leaves (i.skipWord cs) rest ↔ i.rest = cs ++ rest := by
  induction cs generalizing i with
  | nil => simp [skipWord]
  | cons c cs ih =>
      rw [skipWord]
      cases hrest : i.rest with
      | nil => simp [peek_of_rest_nil hrest]
      | cons d r =>
          simp only [peek_of_rest hrest]
          split
          · next hd => simp [ih, advance_rest hrest, hd]
          · next hd => simp [hd]

theorem leaves_skipColon (i : Input) (rest : List Char) :
    Leaves i.skipColon rest ↔ ∃ gap, Gap gap ∧ i.rest = gap ++ ':' :: rest := by
  rw [← skipBlanks_rest_eq_cons_iff (by decide), skipColon]
  cases hrest : i.skipBlanks.rest with
  | nil => simp [peek_of_rest_nil hrest]
  | cons c r =>
      simp only [peek_of_rest hrest]
      split
      · next hc => simp [advance_rest hrest, hc]
      · next hc => simp [hc]

end Words

section Escapes

theorem byteLength_of_mapM_hexDigit?
    {cs : List Char} {ns : List Nat}
    (h : cs.mapM hexDigit? = some ns) :
    Text.byteLength cs = cs.length := by
  induction cs generalizing ns with
  | nil => rfl
  | cons c cs ih =>
      simp only [List.mapM_cons, Option.pure_def, Option.bind_eq_bind, Option.bind_eq_some_iff]
        at h
      obtain ⟨n, hn, ms, hms, -⟩ := h
      have hsize : c.utf8Size = 1 := by
        have hlt := toNat_lt_of_hexDigit? hn
        rw [Char.utf8Size_eq_one_iff, UInt32.le_iff_toNat_le]
        exact Nat.le_of_lt_succ hlt
      rw [Text.byteLength_cons, ih hms, hsize, List.length_cons, Nat.add_comm]

theorem hexQuad_iff (n : Nat) (ds : List Char) :
    HexQuad n ds ↔ ds.length = 4 ∧
      ∃ ns, ds.mapM hexDigit? = some ns ∧ ns.foldl (fun n d => 16 * n + d) 0 = n := by
  constructor
  · rintro ⟨ha, hb, hc, hd⟩
    rename_i a b c d x y z w
    rw [hexDigit_iff] at ha hb hc hd
    refine ⟨rfl, [a, b, c, d], ?_, by simp⟩
    simp [List.mapM_cons, ha, hb, hc, hd]
  · rintro ⟨hlength, ns, hns, rfl⟩
    match ds, hlength with
    | [x, y, z, w], _ =>
      simp only [List.mapM_cons, List.mapM_nil, Option.pure_def, Option.bind_eq_bind,
        Option.bind_some, Option.bind_eq_some_iff, Option.some.injEq, ← hexDigit_iff] at hns
      obtain ⟨a, ha, _, ⟨b, hb, _, ⟨c, hc, _, ⟨d, hd, rfl⟩, rfl⟩, rfl⟩, rfl⟩ := hns
      simpa using HexQuad.digits ha hb hc hd

theorem gives_readHex (i : Input) (n : Nat) (rest : List Char) :
    Gives i.readHex n rest ↔ ∃ ds, HexQuad n ds ∧ i.rest = ds ++ rest := by
  simp only [hexQuad_iff]
  constructor
  · rintro ⟨j, hread, rfl⟩
    simp only [readHex] at hread
    split at hread
    · cases hread
    · next hlong =>
        split at hread
        · next ns hns =>
            obtain ⟨rfl, rfl⟩ := Prod.mk.inj (Except.ok.inj hread)
            rw [byteLength_of_mapM_hexDigit? hns] at hlong
            have hle := List.length_take_le 4 i.rest
            refine ⟨i.rest.take 4, ⟨by omega, ns, hns, rfl⟩, ?_⟩
            exact (List.take_append_drop 4 i.rest).symm
        · cases hread
  · rintro ⟨ds, ⟨hlength, ns, hns, rfl⟩, hrest⟩
    have htake : i.rest.take 4 = ds := by rw [hrest, ← hlength, List.take_left]
    have hdrop : i.rest.drop 4 = rest := by rw [hrest, ← hlength, List.drop_left]
    have hlong : ¬ Text.byteLength ds < 4 := by
      rw [byteLength_of_mapM_hexDigit? hns]
      omega
    simp only [readHex, htake, if_neg hlong, hns]
    exact gives_ok.mpr ⟨rfl, hdrop⟩

theorem leaves_readPairChar (i : Input) (c : Char) (rest : List Char) :
    Leaves (i.readPairChar c) rest ↔ i.rest = c :: rest := by
  rw [readPairChar]
  cases hrest : i.rest with
  | nil => simp [peek_of_rest_nil hrest]
  | cons d r =>
      simp only [peek_of_rest hrest]
      split
      · next hd => simp [advance_rest hrest, hd]
      · next hd => simp [hd]

theorem gives_readLowSurrogate (i : Input) (high : Nat) (c : Char) (rest : List Char) :
    Gives (i.readLowSurrogate high) c rest ↔
      ∃ low es, HexQuad low es ∧ (0xDC00 ≤ low ∧ low ≤ 0xDFFF) ∧ pairChar high low = c ∧
        i.rest = '\\' :: 'u' :: (es ++ rest) := by
  constructor
  · rintro ⟨last, hread, rfl⟩
    simp only [readLowSurrogate] at hread
    split at hread
    · cases hread
    · next j hj =>
        split at hread
        · cases hread
        · next k hk =>
            split at hread
            · cases hread
            · next low l hl =>
                split at hread
                · next hlow =>
                    obtain ⟨rfl, rfl⟩ := Prod.mk.inj (Except.ok.inj hread)
                    obtain ⟨es, hes, hrest⟩ := (gives_readHex k low l.rest).mp ⟨l, hl, rfl⟩
                    refine ⟨low, es, hes, by simpa [isLowSurrogate] using hlow, rfl, ?_⟩
                    rw [(leaves_readPairChar i '\\' j.rest).mp ⟨j, hj, rfl⟩,
                      (leaves_readPairChar j 'u' k.rest).mp ⟨k, hk, rfl⟩, hrest]
                · cases hread
  · rintro ⟨low, es, hes, hlow, rfl, hrest⟩
    obtain ⟨j, hj, hjrest⟩ := (leaves_readPairChar i '\\' _).mpr hrest
    obtain ⟨k, hk, hkrest⟩ := (leaves_readPairChar j 'u' _).mpr hjrest
    obtain ⟨l, hl, rfl⟩ := (gives_readHex k low rest).mpr ⟨es, hes, hkrest⟩
    refine ⟨l, ?_, rfl⟩
    simp only [readLowSurrogate, hj, hk, hl]
    exact if_pos (by simpa [isLowSurrogate] using hlow)

theorem gives_readCode (i : Input) (c : Char) (rest : List Char) :
    Gives i.readCode c rest ↔ ∃ u, CodeOf c u ∧ i.rest = u ++ rest := by
  constructor
  · rintro ⟨last, hread, rfl⟩
    simp only [readCode] at hread
    split at hread
    · cases hread
    · next n j hj =>
        obtain ⟨ds, hds, hrest⟩ := (gives_readHex i n j.rest).mp ⟨j, hj, rfl⟩
        split at hread
        · cases hread
        · next hlow =>
            split at hread
            · next hhigh =>
                obtain ⟨low, es, hes, hbounds, rfl, hjrest⟩ :=
                  (gives_readLowSurrogate j n c last.rest).mp ⟨last, hread, rfl⟩
                refine ⟨_, .pair hds (by simpa [isHighSurrogate] using hhigh) hes hbounds, ?_⟩
                rw [hrest, hjrest, List.append_assoc]
                rfl
            · next hhigh =>
                obtain ⟨rfl, rfl⟩ := Prod.mk.inj (Except.ok.inj hread)
                refine ⟨ds, .scalar hds ?_, hrest⟩
                simp only [isLowSurrogate, isHighSurrogate, Bool.and_eq_true,
                  decide_eq_true_eq] at hlow hhigh
                omega
  · rintro ⟨u, hu, hrest⟩
    cases hu with
    | @scalar n _ hds hn =>
        obtain ⟨j, hj, rfl⟩ := (gives_readHex i n rest).mpr ⟨u, hds, hrest⟩
        refine ⟨j, ?_, rfl⟩
        have hlow : isLowSurrogate n = false := by
          simp only [isLowSurrogate, Bool.and_eq_false_iff, decide_eq_false_iff_not]
          omega
        have hhigh : isHighSurrogate n = false := by
          simp only [isHighSurrogate, Bool.and_eq_false_iff, decide_eq_false_iff_not]
          omega
        simp [readCode, hj, hlow, hhigh]
    | @pair high low ds es hds hhigh hes hlow =>
        rw [List.append_assoc] at hrest
        obtain ⟨j, hj, hjrest⟩ := (gives_readHex i high _).mpr ⟨ds, hds, hrest⟩
        obtain ⟨l, hl, rfl⟩ := (gives_readLowSurrogate j high _ rest).mpr
          ⟨low, es, hes, hlow, rfl, hjrest⟩
        refine ⟨l, ?_, rfl⟩
        have hnot : isLowSurrogate high = false := by
          simp only [isLowSurrogate, Bool.and_eq_false_iff, decide_eq_false_iff_not]
          omega
        have hhalf : isHighSurrogate high = true := by simpa [isHighSurrogate] using hhigh
        simp only [readCode, hj, hnot, hhalf, if_true]
        exact hl

theorem gives_readEscape (i : Input) (c : Char) (rest : List Char) :
    Gives i.readEscape c rest ↔ ∃ u, EscapeOf c u ∧ i.rest = u ++ rest := by
  rw [readEscape]
  cases hrest : i.rest with
  | nil =>
      simp only [peek_of_rest_nil hrest, not_gives_error, false_iff]
      rintro ⟨u, ⟨⟩, hnil⟩ <;> cases hnil
  | cons a r =>
      simp only [peek_of_rest hrest]
      constructor
      · intro hread
        split at hread
        · next ha =>
            obtain ⟨u, hu, hur⟩ := (gives_readCode i.advance c rest).mp hread
            refine ⟨'u' :: u, .code hu, ?_⟩
            rw [ha, ← advance_rest hrest, hur]
            rfl
        · split at hread
          · next d hd =>
              obtain ⟨rfl, rfl⟩ := gives_ok.mp hread
              refine ⟨[a], .letter ((letter_iff a d).mpr hd), ?_⟩
              rw [advance_rest hrest]
              rfl
          · exact absurd hread not_gives_error
      · rintro ⟨u, hu, hur⟩
        cases hu with
        | @letter l _ hl =>
            obtain ⟨rfl, rfl⟩ := List.cons.inj hur
            rw [if_neg hl.ne_code, (letter_iff a c).mp hl]
            exact gives_ok.mpr ⟨rfl, advance_rest hrest⟩
        | @code _ u hu =>
            obtain ⟨rfl, rfl⟩ := List.cons.inj hur
            rw [if_pos rfl]
            exact (gives_readCode i.advance c rest).mpr ⟨u, hu, advance_rest hrest⟩

theorem leaves_skipEscape (i : Input) (rest : List Char) :
    Leaves i.skipEscape rest ↔ ∃ u, EscapeForm u ∧ i.rest = u ++ rest := by
  rw [skipEscape]
  cases hrest : i.rest with
  | nil =>
      simp only [peek_of_rest_nil hrest, not_leaves_error, false_iff]
      rintro ⟨u, ⟨⟩, hnil⟩ <;> cases hnil
  | cons a r =>
      simp only [peek_of_rest hrest]
      constructor
      · intro hread
        split at hread
        · next ha =>
            obtain ⟨j, hj, rfl⟩ := hread
            cases hhex : i.advance.readHex with
            | error e => simp [hhex, Except.map] at hj
            | ok found =>
                obtain ⟨n, k⟩ := found
                obtain rfl : k = j := by simpa [hhex, Except.map] using hj
                obtain ⟨ds, hds, hr⟩ := (gives_readHex i.advance n k.rest).mp ⟨k, hhex, rfl⟩
                refine ⟨'u' :: ds, .code hds, ?_⟩
                rw [ha, ← advance_rest hrest, hr]
                rfl
        · split at hread
          · next hletter =>
              obtain ⟨d, hd⟩ := Option.isSome_iff_exists.mp hletter
              refine ⟨[a], .letter ((letter_iff a d).mpr hd), ?_⟩
              rw [← leaves_ok.mp hread, advance_rest hrest]
              rfl
          · exact absurd hread not_leaves_error
      · rintro ⟨u, hu, hur⟩
        cases hu with
        | @letter l d hl =>
            obtain ⟨rfl, rfl⟩ := List.cons.inj hur
            rw [if_neg hl.ne_code, (letter_iff a d).mp hl]
            exact leaves_ok.mpr (advance_rest hrest)
        | @code n ds hds =>
            obtain ⟨rfl, rfl⟩ := List.cons.inj hur
            obtain ⟨j, hj, hjrest⟩ :=
              (gives_readHex i.advance n rest).mpr ⟨ds, hds, advance_rest hrest⟩
            rw [if_pos rfl, hj]
            exact leaves_ok.mpr hjrest

end Escapes

section Bodies

/-- The body of a string with this value, its closing quote, and what is left. -/
def BodyAhead (value rest text : List Char) : Prop :=
  ∃ body, Denotes value body ∧ text = body ++ '"' :: rest

theorem bodyAhead_quote {value : List Char} :
    BodyAhead value rest ('"' :: r) ↔ value = [] ∧ r = rest := by
  constructor
  · rintro ⟨body, hbody, heq⟩
    cases hbody with
    | empty => exact ⟨rfl, (List.cons.inj heq).2⟩
    | plain hc _ => exact absurd (List.cons.inj heq).1.symm hc.1
    | escape _ _ => exact absurd (List.cons.inj heq).1 (by decide)
  · rintro ⟨rfl, rfl⟩
    exact ⟨[], .empty, rfl⟩

theorem bodyAhead_escape {value : List Char} :
    BodyAhead value rest ('\\' :: r) ↔
      ∃ d value' t, value = d :: value' ∧ (∃ u, EscapeOf d u ∧ r = u ++ t) ∧
        BodyAhead value' rest t := by
  constructor
  · rintro ⟨body, hbody, heq⟩
    cases hbody with
    | empty => exact absurd (List.cons.inj heq).1 (by decide)
    | plain hc _ => exact absurd (List.cons.inj heq).1.symm hc.2.1
    | @escape d value' u body hu hbody =>
        refine ⟨d, value', body ++ '"' :: rest, rfl, ⟨u, hu, ?_⟩, body, hbody, rfl⟩
        simpa using heq
  · rintro ⟨d, value', t, rfl, ⟨u, hu, rfl⟩, body, hbody, rfl⟩
    exact ⟨_, .escape hu hbody, by simp⟩

theorem bodyAhead_plain
    {value : List Char}
    (hquote : c ≠ '"')
    (hescape : c ≠ '\\') :
    BodyAhead value rest (c :: r) ↔
      isControl c = false ∧ ∃ value', value = c :: value' ∧ BodyAhead value' rest r := by
  constructor
  · rintro ⟨body, hbody, heq⟩
    cases hbody with
    | empty => exact absurd (List.cons.inj heq).1 hquote
    | plain hc hbody =>
        obtain ⟨rfl, rfl⟩ := List.cons.inj heq
        refine ⟨?_, _, rfl, _, hbody, rfl⟩
        simpa [isControl] using hc.2.2
    | escape _ _ => exact absurd (List.cons.inj heq).1 hescape
  · rintro ⟨hcontrol, value', rfl, body, hbody, rfl⟩
    refine ⟨_, .plain ⟨hquote, hescape, ?_⟩ hbody, rfl⟩
    simpa [isControl] using hcontrol

/-- Reading a string accepts the bodies that denote something. -/
theorem gives_readString (i : Input) (value rest : List Char) :
    Gives i.readString value rest ↔ BodyAhead value rest i.rest := by
  fun_induction readString i generalizing value with
  | case1 i hpeek =>
      rw [rest_eq_nil_of_peek hpeek]
      simp [BodyAhead]
  | case2 i hpeek =>
      rw [rest_eq_cons_of_peek hpeek, bodyAhead_quote]
      simp [eq_comm]
  | case3 i e hescape hpeek =>
      simp only [rest_eq_cons_of_peek hpeek, bodyAhead_escape, ← gives_readEscape, hescape]
      simp
  | case4 i d j hescape e hread hpeek _ ih =>
      simp only [rest_eq_cons_of_peek hpeek, bodyAhead_escape, ← gives_readEscape, hescape]
      simp [← ih, hread]
  | case5 i d j hescape ds k hread hpeek _ ih =>
      simp only [rest_eq_cons_of_peek hpeek, bodyAhead_escape, ← gives_readEscape, hescape]
      simp [← ih, hread, eq_comm]
  | case6 i c hpeek hquote hescape hcontrol =>
      rw [rest_eq_cons_of_peek hpeek, bodyAhead_plain hquote hescape]
      simp [hcontrol]
  | case7 i c hpeek hquote hescape _ e hread ih =>
      rw [rest_eq_cons_of_peek hpeek, bodyAhead_plain hquote hescape]
      simp [← ih, hread]
  | case8 i c hpeek hquote hescape hcontrol ds k hread ih =>
      rw [rest_eq_cons_of_peek hpeek, bodyAhead_plain hquote hescape]
      simp [← ih, hread, hcontrol, eq_comm]

/-- The form of a body, its closing quote, and what is left. -/
def FormAhead (rest text : List Char) : Prop :=
  ∃ body, IsBody body ∧ text = body ++ '"' :: rest

theorem formAhead_quote :
    FormAhead rest ('"' :: r) ↔ r = rest := by
  constructor
  · rintro ⟨body, hbody, heq⟩
    cases hbody with
    | empty => exact (List.cons.inj heq).2
    | plain hc _ => exact absurd (List.cons.inj heq).1.symm hc.1
    | escape _ _ => exact absurd (List.cons.inj heq).1 (by decide)
  · rintro rfl
    exact ⟨[], .empty, rfl⟩

theorem formAhead_escape :
    FormAhead rest ('\\' :: r) ↔
      ∃ t, (∃ u, EscapeForm u ∧ r = u ++ t) ∧ FormAhead rest t := by
  constructor
  · rintro ⟨body, hbody, heq⟩
    cases hbody with
    | empty => exact absurd (List.cons.inj heq).1 (by decide)
    | plain hc _ => exact absurd (List.cons.inj heq).1.symm hc.2.1
    | @escape u body hu hbody =>
        refine ⟨body ++ '"' :: rest, ⟨u, hu, ?_⟩, body, hbody, rfl⟩
        simpa using heq
  · rintro ⟨t, ⟨u, hu, rfl⟩, body, hbody, rfl⟩
    exact ⟨_, .escape hu hbody, by simp⟩

theorem formAhead_plain
    (hquote : c ≠ '"')
    (hescape : c ≠ '\\') :
    FormAhead rest (c :: r) ↔ isControl c = false ∧ FormAhead rest r := by
  constructor
  · rintro ⟨body, hbody, heq⟩
    cases hbody with
    | empty => exact absurd (List.cons.inj heq).1 hquote
    | plain hc hbody =>
        obtain ⟨rfl, rfl⟩ := List.cons.inj heq
        refine ⟨?_, _, hbody, rfl⟩
        simpa [isControl] using hc.2.2
    | escape _ _ => exact absurd (List.cons.inj heq).1 hescape
  · rintro ⟨hcontrol, body, hbody, rfl⟩
    refine ⟨_, .plain ⟨hquote, hescape, ?_⟩ hbody, rfl⟩
    simpa [isControl] using hcontrol

/-- Passing over a string accepts all that has the form of a body. -/
theorem leaves_skipString (i : Input) (rest : List Char) :
    Leaves i.skipString rest ↔ FormAhead rest i.rest := by
  fun_induction skipString i with
  | case1 i hpeek =>
      rw [rest_eq_nil_of_peek hpeek]
      simp [FormAhead]
  | case2 i hpeek =>
      rw [rest_eq_cons_of_peek hpeek, formAhead_quote]
      simp
  | case3 i e hescape hpeek =>
      simp only [rest_eq_cons_of_peek hpeek, formAhead_escape, ← leaves_skipEscape, hescape]
      simp
  | case4 i j hescape hpeek _ ih =>
      simp only [rest_eq_cons_of_peek hpeek, formAhead_escape, ← leaves_skipEscape, hescape]
      simp [ih]
  | case5 i c hpeek hquote hescape hcontrol =>
      rw [rest_eq_cons_of_peek hpeek, formAhead_plain hquote hescape]
      simp [hcontrol]
  | case6 i c hpeek hquote hescape hcontrol ih =>
      rw [rest_eq_cons_of_peek hpeek, formAhead_plain hquote hescape]
      simp [ih, hcontrol]

/-- The name of a member, behind its opening quote, and the colon behind it. -/
theorem leaves_skipKey (i : Input) (rest : List Char) :
    Leaves i.skipKey rest ↔
      ∃ gap body gap', Gap gap ∧ IsBody body ∧ Gap gap' ∧
        i.rest = gap ++ (quoted body ++ (gap' ++ ':' :: rest)) := by
  have hquote : ∀ t, i.skipBlanks.rest = '"' :: t ↔ ∃ gap, Gap gap ∧ i.rest = gap ++ '"' :: t :=
    fun t => skipBlanks_rest_eq_cons_iff (by decide)
  constructor
  · rintro ⟨last, hread, rfl⟩
    simp only [skipKey] at hread
    split at hread
    · cases hread
    · next c hpeek =>
        split at hread
        · next hc =>
            obtain rfl := hc
            split at hread
            · cases hread
            · next k hk =>
                obtain ⟨gap, hgap, hrest⟩ := (hquote _).mp (rest_eq_cons_of_peek hpeek)
                obtain ⟨body, hbody, hk⟩ := (leaves_skipString _ k.rest).mp ⟨k, hk, rfl⟩
                obtain ⟨gap', hgap', hcolon⟩ :=
                  (leaves_skipColon k last.rest).mp ⟨last, hread, rfl⟩
                refine ⟨gap, body, gap', hgap, hbody, hgap', ?_⟩
                rw [hrest, hk, hcolon, quoted_append]
        · cases hread
  · rintro ⟨gap, body, gap', hgap, hbody, hgap', hrest⟩
    rw [quoted_append] at hrest
    have hblanks := (hquote _).mpr ⟨gap, hgap, hrest⟩
    obtain ⟨k, hk, hkrest⟩ :=
      (leaves_skipString i.skipBlanks.advance _).mpr ⟨body, hbody, advance_rest hblanks⟩
    obtain ⟨last, hlast, rfl⟩ := (leaves_skipColon k rest).mpr ⟨gap', hgap', hkrest⟩
    refine ⟨last, ?_, rfl⟩
    simp only [skipKey, peek_of_rest hblanks, if_true, hk, hlast]

end Bodies
end Input
end Json
end TokenStream
