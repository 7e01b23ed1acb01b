import TokenStream.Config.Document
import TokenStream.Proofs.JsonValues

/-!
# The values of settings

A variant is written as a string that denotes its name, or as an object whose only member has
that name and the value `null`. The values of the settings are variants of a format or of a level,
and `null` besides where a level may be left open.

**Results** what reads a value accepts exactly its written forms, behind any gap.
-/

namespace TokenStream

open Json

namespace Config

/-- The written forms of the variant with this name. -/
inductive VariantOf (name : List Char) : List Char → Prop
  | string
      {body : List Char}
      (h : Denotes name body) :
      VariantOf name (quoted body)
  | object
      {m : Member} {gap gap' : List Char}
      (hgap : Gap gap)
      (hname : Denotes name m.body)
      (hspaced : m.Spaced)
      (hnull : m.value = "null".toList)
      (hgap' : Gap gap') :
      VariantOf name (Bracket.object.around (gap ++ (m.text ++ gap')))

/-- What a document says of one setting, or a member that says nothing of any. -/
inductive Entry where
  | output (format : Format)
  | logLevel (level : Level)
  | lexerLogLevel (level : Option Level)
  | other (name : List Char)
deriving DecidableEq, Repr

namespace Entry

def key? : Entry → Option Key
  | output _ => some .output
  | logLevel _ => some .logLevel
  | lexerLogLevel _ => some .lexerLogLevel
  | other _ => none

/-- The name of a member with this content. -/
def name : Entry → List Char
  | output _ => "output".toList
  | logLevel _ => "log_level".toList
  | lexerLogLevel _ => "lexer_log_level".toList
  | other name => name

end Entry

/-- The written forms of the value of an entry; under another name every value will do. -/
inductive ValueOf : Entry → List Char → Prop
  | output
      {format : Format} {text : List Char}
      (h : VariantOf format.name text) :
      ValueOf (.output format) text
  | logLevel
      {level : Level} {text : List Char}
      (h : VariantOf level.name text) :
      ValueOf (.logLevel level) text
  | lexerLogLevel
      {level : Level} {text : List Char}
      (h : VariantOf level.name text) :
      ValueOf (.lexerLogLevel (some level)) text
  | noLexerLogLevel : ValueOf (.lexerLogLevel none) "null".toList
  | other
      {name text : List Char}
      (hname : name ∉ ["output".toList, "log_level".toList, "lexer_log_level".toList])
      (h : IsValue text) :
      ValueOf (.other name) text

section Values

theorem isValue_null : IsValue "null".toList :=
  .scalar .null

theorem VariantOf.isValue
    {name text : List Char}
    (h : VariantOf name text) :
    IsValue text := by
  cases h with
  | string h => exact .scalar (.string h.isBody)
  | @object m gap gap' hgap hname hspaced hnull hgap' =>
      have hmember : IsItem .object m.text :=
        .member hname.isBody hspaced (hnull ▸ isValue_null)
      exact .bracket (.item (.first hgap) (.done hgap')) (List.forall_mem_singleton.mpr hmember)

theorem ValueOf.isValue
    {entry : Entry} {text : List Char}
    (h : ValueOf entry text) :
    IsValue text := by
  cases h with
  | output h => exact h.isValue
  | logLevel h => exact h.isValue
  | lexerLogLevel h => exact h.isValue
  | noLexerLogLevel => exact isValue_null
  | other _ h => exact h

end Values

/-- A name chooses the only variant that has it. -/
def Choice.Lawful {α : Type} (choice : Choice α) : Prop :=
  ∀ w a, choice.find? w = some a ↔ choice.name a = w

theorem lawful_formatChoice : formatChoice.Lawful := by
  intro w a
  constructor
  · intro h
    simpa using List.find?_some h
  · rintro rfl
    cases a <;> rfl

theorem lawful_levelChoice : levelChoice.Lawful := by
  intro w a
  constructor
  · intro h
    simpa using List.find?_some h
  · rintro rfl
    cases a <;> rfl

theorem ofName?_eq_some_iff (w : List Char) (key : Key) :
    Key.ofName? w = some key ↔ key.name = w := by
  constructor
  · intro h
    simpa using List.find?_some h
  · rintro rfl
    cases key <;> rfl

section Steps

variable {α β ε : Type} {rest : List Char}

theorem gives_bind
    {r : Except ε β} {f : β → Except ε (α × Input)} {a : α} :
    Gives (r >>= f) a rest ↔ ∃ b, r = .ok b ∧ Gives (f b) a rest := by
  cases r with
  | error e => simp [Bind.bind, Except.bind]
  | ok b => simp [Bind.bind, Except.bind]

theorem gives_pure
    {a b : α} {j : Input} :
    Gives (pure (a, j) : Except ε (α × Input)) b rest ↔ a = b ∧ j.rest = rest :=
  gives_ok

theorem gives_map
    {r : Except ε (β × Input)} {f : β → α} {a : α} :
    Gives (r >>= fun x => pure (f x.1, x.2)) a rest ↔ ∃ b, f b = a ∧ Gives r b rest := by
  rw [gives_bind]
  constructor
  · rintro ⟨⟨b, j⟩, hr, hpure⟩
    obtain ⟨hf, hj⟩ := gives_pure.mp hpure
    exact ⟨b, hf, j, hr, hj⟩
  · rintro ⟨b, hf, j, hr, hj⟩
    exact ⟨(b, j), hr, gives_pure.mpr ⟨hf, hj⟩⟩

theorem lift_eq_ok_iff
    {r : Except Json.Fault α} {a : α} :
    lift r = .ok a ↔ r = .ok a := by
  refine ⟨eq_ok_of_lift, ?_⟩
  rintro rfl
  rfl

theorem leaves_lift
    {r : Except Json.Fault Input} :
    Leaves (lift r) rest ↔ Leaves r rest := by
  simp only [Leaves, lift_eq_ok_iff]

end Steps

section Choices

variable {α : Type} {choice : Choice α} {i : Input} {a : α} {rest : List Char}

theorem gives_readName
    (hchoice : choice.Lawful) :
    Gives (readName choice i) a rest ↔ Input.BodyAhead (choice.name a) rest i.rest := by
  rw [← Input.gives_readString, readName]
  cases hread : i.readString with
  | error e => simp
  | ok found =>
      obtain ⟨w, j⟩ := found
      cases hfind : choice.find? w with
      | none =>
          have hne : w ≠ choice.name a := by
            rintro rfl
            rw [(hchoice _ a).mpr rfl] at hfind
            cases hfind
          simp [hne, hfind]
      | some b =>
          have heq : b = a ↔ w = choice.name a := by
            constructor
            · rintro rfl
              exact ((hchoice w b).mp hfind).symm
            · rintro rfl
              exact Option.some.inj (hfind.symm.trans ((hchoice _ a).mpr rfl))
          simp [heq, hfind]

/-- The value `null`. -/
theorem leaves_readNull :
    Leaves (readNull i) rest ↔ ∃ gap, Gap gap ∧ i.rest = gap ++ ("null".toList ++ rest) := by
  constructor
  · rintro ⟨last, hread, rfl⟩
    simp only [readNull] at hread
    split at hread
    · cases hread
    · next c hpeek =>
        split at hread
        · next hc =>
            subst hc
            have hrest := (Input.leaves_skipWord _ _ last.rest).mp ⟨last, eq_ok_of_lift hread, rfl⟩
            obtain ⟨gap, hgap, hi⟩ := (Input.skipBlanks_rest_eq_cons_iff (by decide)).mp
              (Input.rest_eq_cons_of_peek hpeek)
            exact ⟨gap, hgap, hi.trans (by rw [hrest]; rfl)⟩
        · cases hread
  · rintro ⟨gap, hgap, hi⟩
    have hblanks : i.skipBlanks.rest = 'n' :: (['u', 'l', 'l'] ++ rest) :=
      (Input.skipBlanks_rest_eq_cons_iff (by decide)).mpr ⟨gap, hgap, hi⟩
    simp only [readNull, Input.peek_of_rest hblanks, if_true]
    exact leaves_lift.mpr ((Input.leaves_skipWord _ _ rest).mpr (Input.advance_rest hblanks))

theorem leaves_closeChoice :
    Leaves (closeChoice i) rest ↔ ∃ gap, Gap gap ∧ i.rest = gap ++ '\x7d' :: rest := by
  rw [← Input.skipBlanks_rest_eq_cons_iff (by decide), closeChoice]
  cases hrest : i.skipBlanks.rest with
  | nil => simp [Input.peek_of_rest_nil hrest]
  | cons c r =>
      simp only [Input.peek_of_rest hrest]
      split
      · next hc => simp [Input.advance_rest hrest, hc]
      · next hc => simp [hc]

/-- A variant written as an object, behind its opening bracket. -/
theorem gives_readMemberChoice
    (hchoice : choice.Lawful) :
    Gives (readMemberChoice choice i) a rest ↔
      ∃ (gap : List Char) (m : Member) (gap' : List Char),
        Gap gap ∧ Denotes (choice.name a) m.body ∧ m.Spaced ∧ m.value = "null".toList ∧ Gap gap' ∧
        i.rest = gap ++ (m.text ++ (gap' ++ '\x7d' :: rest)) := by
  constructor
  · rintro ⟨last, hread, rfl⟩
    simp only [readMemberChoice] at hread
    split at hread
    · cases hread
    · next c hpeek =>
        split at hread
        · next hc =>
            subst hc
            have hsteps : Gives _ a last.rest := ⟨last, hread, rfl⟩
            obtain ⟨⟨b, k⟩, hname, hsteps⟩ := gives_bind.mp hsteps
            obtain ⟨colon, hcolon, hsteps⟩ := gives_bind.mp hsteps
            obtain ⟨null, hnull, hsteps⟩ := gives_bind.mp hsteps
            obtain ⟨close, hclose, hsteps⟩ := gives_bind.mp hsteps
            obtain ⟨rfl, hlast⟩ := gives_pure.mp hsteps
            obtain ⟨gap, hgap, hi⟩ := (Input.skipBlanks_rest_eq_cons_iff (by decide)).mp
              (Input.rest_eq_cons_of_peek hpeek)
            obtain ⟨body, hbody, hk⟩ := (gives_readName hchoice).mp ⟨k, hname, rfl⟩
            obtain ⟨before, hbefore, hk'⟩ :=
              (Input.leaves_skipColon k colon.rest).mp ⟨colon, eq_ok_of_lift hcolon, rfl⟩
            obtain ⟨behind, hbehind, hcolon'⟩ := leaves_readNull.mp ⟨null, hnull, rfl⟩
            obtain ⟨gap', hgap', hnull'⟩ := leaves_closeChoice.mp ⟨close, hclose, rfl⟩
            refine ⟨gap, ⟨body, before, behind, "null".toList⟩, gap', hgap, hbody,
              ⟨hbefore, hbehind⟩, rfl, hgap', ?_⟩
            rw [hi, hk, hk', hcolon', hnull', hlast]
            simp [Member.text]
        · cases hread
  · rintro ⟨gap, ⟨body, before, behind, _⟩, gap', hgap, hbody, hspaced, rfl, hgap', hi⟩
    simp only [Member.text, quoted_append, List.append_assoc, List.cons_append] at hi
    have hblanks := (Input.skipBlanks_rest_eq_cons_iff (by decide)).mpr ⟨gap, hgap, hi⟩
    obtain ⟨k, hk, hkrest⟩ :=
      (gives_readName hchoice).mpr ⟨body, hbody, Input.advance_rest hblanks⟩
    obtain ⟨colon, hcolon, hcolonrest⟩ :=
      (Input.leaves_skipColon k _).mpr ⟨before, hspaced.before, hkrest⟩
    obtain ⟨null, hnull, hnullrest⟩ := leaves_readNull.mpr ⟨behind, hspaced.behind, hcolonrest⟩
    obtain ⟨close, hclose, hcloserest⟩ := leaves_closeChoice.mpr ⟨gap', hgap', hnullrest⟩
    simp only [readMemberChoice, Input.peek_of_rest hblanks, if_true]
    refine gives_bind.mpr ⟨_, hk, gives_bind.mpr ⟨_, lift_eq_ok_iff.mpr hcolon,
      gives_bind.mpr ⟨_, hnull, gives_bind.mpr ⟨_, hclose, ?_⟩⟩⟩⟩
    exact gives_pure.mpr ⟨rfl, hcloserest⟩

theorem gives_readChoice
    (hchoice : choice.Lawful) :
    Gives (readChoice choice i) a rest ↔
      ∃ gap text, Gap gap ∧ VariantOf (choice.name a) text ∧ i.rest = gap ++ (text ++ rest) := by
  constructor
  · intro hread
    simp only [readChoice] at hread
    split at hread
    · exact absurd hread not_gives_error
    · next c hpeek =>
        have hblanks := Input.rest_eq_cons_of_peek hpeek
        split at hread
        · next hc =>
            subst hc
            obtain ⟨gap, hgap, hi⟩ := (Input.skipBlanks_rest_eq_cons_iff (by decide)).mp hblanks
            obtain ⟨body, hbody, hrest⟩ := (gives_readName hchoice).mp hread
            refine ⟨gap, quoted body, hgap, .string hbody, ?_⟩
            rw [hi, hrest, quoted_append]
        · split at hread
          · next hc =>
              subst hc
              obtain ⟨gap, hgap, hi⟩ := (Input.skipBlanks_rest_eq_cons_iff (by decide)).mp hblanks
              obtain ⟨behind, m, gap', hbehind, hname, hspaced, hnull, hgap', hrest⟩ :=
                (gives_readMemberChoice hchoice).mp hread
              refine ⟨gap, _, hgap, .object hbehind hname hspaced hnull hgap', ?_⟩
              rw [hi, hrest]
              simp [Bracket.opening, Bracket.close]
          · exact absurd hread not_gives_error
  · rintro ⟨gap, text, hgap, htext, hi⟩
    cases htext with
    | string h =>
        rw [quoted_append] at hi
        have hblanks := (Input.skipBlanks_rest_eq_cons_iff (by decide)).mpr ⟨gap, hgap, hi⟩
        simp only [readChoice, Input.peek_of_rest hblanks, if_true]
        exact (gives_readName hchoice).mpr ⟨_, h, Input.advance_rest hblanks⟩
    | object hbehind hname hspaced hnull hgap' =>
        rw [Bracket.around_append] at hi
        have hblanks := (Input.skipBlanks_rest_eq_cons_iff (by decide)).mpr ⟨gap, hgap, hi⟩
        simp only [readChoice, Input.peek_of_rest hblanks]
        rw [if_neg (by decide), if_pos (show Bracket.object.opening = '\x7b' from rfl)]
        refine (gives_readMemberChoice hchoice).mpr
          ⟨_, _, _, hbehind, hname, hspaced, hnull, hgap', ?_⟩
        rw [Input.advance_rest hblanks]
        simp [Bracket.close]

/-- The start of a variant is that of a string or of an object. -/
theorem VariantOf.exists_head
    {name text : List Char}
    (h : VariantOf name text) :
    ∃ c cs, text = c :: cs ∧ Input.isBlank c = false ∧ c ≠ 'n' := by
  cases h with
  | string _ => exact ⟨_, _, rfl, by decide, by decide⟩
  | object _ _ _ _ _ => exact ⟨_, _, rfl, by decide, by decide⟩

/-- The written forms of a variant that may be left open. -/
inductive OptionOf (choice : Choice α) : Option α → List Char → Prop
  | none : OptionOf choice none "null".toList
  | some
      {a : α} {text : List Char}
      (h : VariantOf (choice.name a) text) :
      OptionOf choice (some a) text

theorem gives_readOptionalChoice
    {found : Option α}
    (hchoice : choice.Lawful) :
    Gives (readOptionalChoice choice i) found rest ↔
      ∃ gap text, Gap gap ∧ OptionOf choice found text ∧ i.rest = gap ++ (text ++ rest) := by
  constructor
  · intro hread
    simp only [readOptionalChoice] at hread
    split at hread
    · next hpeek =>
        obtain ⟨k, hk, hread⟩ := gives_bind.mp hread
        obtain ⟨rfl, hlast⟩ := gives_pure.mp hread
        have hword := (Input.leaves_skipWord _ _ k.rest).mp ⟨k, eq_ok_of_lift hk, rfl⟩
        obtain ⟨gap, hgap, hi⟩ := (Input.skipBlanks_rest_eq_cons_iff (by decide)).mp
          (Input.rest_eq_cons_of_peek hpeek)
        refine ⟨gap, _, hgap, .none, ?_⟩
        rw [hi, hword, hlast]
        rfl
    · obtain ⟨⟨a, k⟩, hk, hread⟩ := gives_bind.mp hread
      obtain ⟨rfl, hlast⟩ := gives_pure.mp hread
      obtain ⟨gap, hgap, hi⟩ := i.exists_gap
      obtain ⟨gap', text, hgap', htext, hrest⟩ := (gives_readChoice hchoice).mp ⟨k, hk, hlast⟩
      refine ⟨gap ++ gap', text, hgap.append hgap', .some htext, ?_⟩
      rw [hi, hrest, List.append_assoc]
  · rintro ⟨gap, text, hgap, htext, hi⟩
    cases htext with
    | none =>
        have hblanks : i.skipBlanks.rest = 'n' :: (['u', 'l', 'l'] ++ rest) :=
          (Input.skipBlanks_rest_eq_cons_iff (by decide)).mpr ⟨gap, hgap, hi⟩
        obtain ⟨k, hk, hkrest⟩ :=
          (Input.leaves_skipWord i.skipBlanks.advance ['u', 'l', 'l'] rest).mpr
            (Input.advance_rest hblanks)
        simp only [readOptionalChoice, Input.peek_of_rest hblanks, if_true]
        exact gives_bind.mpr ⟨k, lift_eq_ok_iff.mpr hk, gives_pure.mpr ⟨rfl, hkrest⟩⟩
    | @some a _ h =>
        obtain ⟨c, cs, rfl, hc, hne⟩ := h.exists_head
        have hblanks := (Input.skipBlanks_rest_eq_cons_iff hc).mpr ⟨gap, hgap, hi⟩
        have hpeek : ¬ i.skipBlanks.peek = some 'n' := by
          rw [Input.peek_of_rest hblanks, Option.some.injEq]
          exact hne
        have hread : Gives (readChoice choice i.skipBlanks) a rest :=
          (gives_readChoice hchoice).mpr ⟨[], _, gap_nil, h, hblanks⟩
        obtain ⟨k, hk, hkrest⟩ := hread
        simp only [readOptionalChoice, if_neg hpeek]
        exact gives_bind.mpr ⟨(a, k), hk, gives_pure.mpr ⟨rfl, hkrest⟩⟩

end Choices

/-- The settings with what an entry says added to them. -/
def Settings.add (s : Settings) : Entry → Settings
  | .output format => { s with output := some format }
  | .logLevel level => { s with logLevel := some level }
  | .lexerLogLevel level => { s with lexerLogLevel := some level }
  | .other _ => s

/-- **The value of a setting.** Reading it adds an entry for this setting. -/
theorem gives_readSetting (s t : Settings) (key : Key) (i : Input) (rest : List Char) :
    Gives (readSetting s key i) t rest ↔
      ∃ entry gap text, Entry.key? entry = some key ∧ s.add entry = t ∧ Gap gap ∧
        ValueOf entry text ∧ i.rest = gap ++ (text ++ rest) := by
  cases key with
  | output =>
      refine (gives_map (f := fun found => { s with output := some found })).trans ⟨?_, ?_⟩
      · rintro ⟨format, rfl, hread⟩
        obtain ⟨gap, text, hgap, htext, hi⟩ := (gives_readChoice lawful_formatChoice).mp hread
        exact ⟨.output format, gap, text, rfl, rfl, hgap, .output htext, hi⟩
      · rintro ⟨entry, gap, text, hkey, rfl, hgap, hvalue, hi⟩
        cases hvalue <;> cases hkey
        next format htext =>
          exact ⟨format, rfl,
            (gives_readChoice lawful_formatChoice).mpr ⟨gap, text, hgap, htext, hi⟩⟩
  | logLevel =>
      refine (gives_map (f := fun found => { s with logLevel := some found })).trans ⟨?_, ?_⟩
      · rintro ⟨level, rfl, hread⟩
        obtain ⟨gap, text, hgap, htext, hi⟩ := (gives_readChoice lawful_levelChoice).mp hread
        exact ⟨.logLevel level, gap, text, rfl, rfl, hgap, .logLevel htext, hi⟩
      · rintro ⟨entry, gap, text, hkey, rfl, hgap, hvalue, hi⟩
        cases hvalue <;> cases hkey
        next level htext =>
          exact ⟨level, rfl, (gives_readChoice lawful_levelChoice).mpr ⟨gap, text, hgap, htext, hi⟩⟩
  | lexerLogLevel =>
      refine (gives_map (f := fun found => { s with lexerLogLevel := some found })).trans ⟨?_, ?_⟩
      · rintro ⟨found, rfl, hread⟩
        obtain ⟨gap, text, hgap, htext, hi⟩ :=
          (gives_readOptionalChoice lawful_levelChoice).mp hread
        refine ⟨.lexerLogLevel found, gap, text, rfl, rfl, hgap, ?_, hi⟩
        cases htext with
        | none => exact .noLexerLogLevel
        | some h => exact .lexerLogLevel h
      · rintro ⟨entry, gap, text, hkey, rfl, hgap, hvalue, hi⟩
        have hoption : ∃ found, entry = .lexerLogLevel found ∧ OptionOf levelChoice found text := by
          cases hvalue <;> cases hkey
          · next h => exact ⟨_, rfl, .some h⟩
          · exact ⟨_, rfl, .none⟩
        obtain ⟨found, rfl, htext⟩ := hoption
        exact ⟨found, rfl, (gives_readOptionalChoice lawful_levelChoice).mpr
          ⟨gap, text, hgap, htext, hi⟩⟩

end Config
end TokenStream
