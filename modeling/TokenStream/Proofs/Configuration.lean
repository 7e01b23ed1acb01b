import TokenStream.Proofs.Choices

/-!
# The language of configurations

A configuration is a JSON document of one of two forms. In an object each setting is given at most
once, under its name, and members with other names hold any values, any number of times. In a list
the settings stand in a fixed order, and those at the end may be left out. What is not given has its
default.

**Results** reading one member or element adds one entry; reading all of them accepts exactly the
forms of the grammar, the objects by induction on the run and on the members, the lists by
induction on the settings that may still come.
-/

namespace TokenStream

open Json

namespace Config

/-- The written forms of a member with this content. -/
def MemberOf (entry : Entry) (text : List Char) : Prop :=
  ∃ m : Member, Denotes entry.name m.body ∧ m.Spaced ∧ ValueOf entry m.value ∧ m.text = text

/-- The settings in their order. -/
def Key.all : List Key := [.output, .logLevel, .lexerLogLevel]

/-- The written forms of a configuration with these entries. -/
inductive Holds : List Entry → List Char → Prop
  | object
      {entries : List Entry} {texts : List (List Char)} {inner : List Char}
      (hinner : Items true texts inner)
      (hmembers : List.Forall₂ MemberOf entries texts)
      (honce : (entries.filterMap Entry.key?).Nodup) :
      Holds entries (Bracket.object.around inner)
  | list
      {entries : List Entry} {texts : List (List Char)} {inner : List Char}
      (hinner : Items true texts inner)
      (hvalues : List.Forall₂ ValueOf entries texts)
      (horder : entries.map Entry.key? <+: Key.all.map some) :
      Holds entries (Bracket.list.around inner)

/-- A JSON document that holds a configuration with these entries, and nothing else. -/
inductive DocumentOf (entries : List Entry) : List Char → Prop
  | value
      {gap value gap' : List Char}
      (hgap : Gap gap)
      (hvalue : IsValue value)
      (hholds : Holds entries value)
      (hgap' : Gap gap') :
      DocumentOf entries (gap ++ (value ++ gap'))

namespace Entry

def format? : Entry → Option Format
  | output format => some format
  | _ => none

def level? : Entry → Option Level
  | logLevel level => some level
  | _ => none

def lexerLevel? : Entry → Option (Option Level)
  | lexerLogLevel level => some level
  | _ => none

end Entry

/-- The configuration with these entries: each setting as it is given, or else its default. -/
def ofEntries (entries : List Entry) : Config where
  output := (entries.findSome? Entry.format?).getD .text
  logLevel := (entries.findSome? Entry.level?).getD .warn
  lexerLogLevel := (entries.findSome? Entry.lexerLevel?).getD none

section Holds

theorem MemberOf.isItem
    {entry : Entry} {text : List Char}
    (h : MemberOf entry text) :
    IsItem .object text := by
  obtain ⟨m, hname, hspaced, hvalue, rfl⟩ := h
  exact .member hname.isBody hspaced hvalue.isValue

/-- What holds a configuration is a JSON value. -/
theorem Holds.isValue
    {entries : List Entry} {text : List Char}
    (h : Holds entries text) :
    IsValue text := by
  cases h with
  | object hinner hmembers _ =>
      exact .bracket hinner (forall_of_forall₂ hmembers fun _ _ h => h.isItem)
  | list hinner hvalues _ =>
      exact .bracket hinner (forall_of_forall₂ hvalues fun _ _ h => h.isValue)

end Holds

namespace Settings

/-- Each entry gives a setting that neither the settings nor an entry in front of it give. -/
def Fresh (s : Settings) : List Entry → Prop
  | [] => True
  | entry :: entries => (∀ key ∈ entry.key?, s.has key = false) ∧ (s.add entry).Fresh entries

theorem has_add (s : Settings) (entry : Entry) (key : Key) :
    (s.add entry).has key = (s.has key || decide (entry.key? = some key)) := by
  cases entry <;> cases key <;> simp [has, add, Entry.key?]

theorem fresh_iff (s : Settings) (entries : List Entry) :
    s.Fresh entries ↔ (entries.filterMap Entry.key?).Nodup ∧
      ∀ key ∈ entries.filterMap Entry.key?, s.has key = false := by
  induction entries generalizing s with
  | nil => simp [Fresh]
  | cons entry entries ih =>
      rw [Fresh, ih]
      cases hkey : entry.key? with
      | none => simp [has_add, hkey]
      | some key =>
          simp only [has_add, hkey, List.filterMap_cons_some hkey, List.nodup_cons,
            List.forall_mem_cons, Bool.or_eq_false_iff, decide_eq_false_iff_not,
            Option.mem_some_iff, forall_eq', Option.some.injEq]
          constructor
          · rintro ⟨hnew, hnodup, hrest⟩
            exact ⟨⟨fun hmem => (hrest key hmem).2 rfl, hnodup⟩, hnew, fun k hk => (hrest k hk).1⟩
          · rintro ⟨⟨hnot, hnodup⟩, hnew, hrest⟩
            refine ⟨hnew, hnodup, fun k hk => ⟨hrest k hk, ?_⟩⟩
            rintro rfl
            exact hnot hk

theorem fresh_none_iff (entries : List Entry) :
    none.Fresh entries ↔ (entries.filterMap Entry.key?).Nodup := by
  rw [fresh_iff]
  refine and_iff_left ?_
  rintro (_ | _ | _) _ <;> rfl

/-- Entries that are given once are found where they are given. -/
theorem foldl_add_eq
    {s : Settings} {entries : List Entry}
    (h : s.Fresh entries) :
    entries.foldl add s =
      ⟨s.output.or (entries.findSome? Entry.format?),
        s.logLevel.or (entries.findSome? Entry.level?),
        s.lexerLogLevel.or (entries.findSome? Entry.lexerLevel?)⟩ := by
  induction entries generalizing s with
  | nil => simp
  | cons entry entries ih =>
      obtain ⟨hnew, hrest⟩ := h
      rw [List.foldl_cons, ih hrest]
      cases entry with
      | other name => rfl
      | output format =>
          have hnone : s.output = Option.none := by simpa [has, Entry.key?] using hnew
          simp only [add, hnone, Option.some_or, Option.none_or]
          rfl
      | logLevel level =>
          have hnone : s.logLevel = Option.none := by simpa [has, Entry.key?] using hnew
          simp only [add, hnone, Option.some_or, Option.none_or]
          rfl
      | lexerLogLevel level =>
          have hnone : s.lexerLogLevel = Option.none := by simpa [has, Entry.key?] using hnew
          simp only [add, hnone, Option.some_or, Option.none_or]
          rfl

theorem config_foldl_add
    {entries : List Entry}
    (h : none.Fresh entries) :
    (entries.foldl add none).config = ofEntries entries := by
  rw [foldl_add_eq h]
  rfl

end Settings

section Members

variable {i j : Input} {s t : Settings} {entry : Entry} {item rest : List Char}

theorem Entry.name_of_key?
    {key : Key}
    (h : entry.key? = some key) :
    entry.name = key.name := by
  cases entry <;> cases h <;> rfl

theorem ValueOf.ofName?_name
    {text : List Char}
    (h : ValueOf entry text) :
    Key.ofName? entry.name = entry.key? := by
  cases h with
  | @other name _ hname _ =>
      have hnone : ∀ key : Key, ¬ Key.ofName? name = some key := by
        intro key hkey
        rw [ofName?_eq_some_iff] at hkey
        subst hkey
        cases key <;> exact hname (by decide)
      exact Option.eq_none_iff_forall_ne_some.mpr hnone
  | _ => rfl

/-- **One member.** Behind the opening quote of its name it adds an entry that is not yet given. -/
theorem exists_of_readMember
    (h : Gives (readMember s i) t rest) :
    ∃ entry item, MemberOf entry item ∧ (∀ key ∈ entry.key?, s.has key = false) ∧
      s.add entry = t ∧ '"' :: i.rest = item ++ rest := by
  rw [readMember] at h
  split at h
  · exact absurd h not_gives_error
  · next w j hread =>
      obtain ⟨body, hbody, hi⟩ := (Input.gives_readString i w j.rest).mp ⟨j, hread, rfl⟩
      split at h
      · next key hkey =>
          split at h
          · exact absurd h not_gives_error
          · next hnew =>
              obtain ⟨k, hk, h⟩ := gives_bind.mp h
              obtain ⟨before, hbefore, hj⟩ :=
                (Input.leaves_skipColon j k.rest).mp ⟨k, eq_ok_of_lift hk, rfl⟩
              obtain ⟨entry, behind, text, hentry, hadd, hbehind, hvalue, hrest⟩ :=
                (gives_readSetting s t key k rest).mp h
              have hname : entry.name = w :=
                (Entry.name_of_key? hentry).trans ((ofName?_eq_some_iff w key).mp hkey)
              refine ⟨entry, _, ⟨⟨body, before, behind, text⟩, hname ▸ hbody, ⟨hbefore, hbehind⟩,
                hvalue, rfl⟩, ?_, hadd, ?_⟩
              · rw [hentry]
                rintro _ ⟨⟩
                simpa using hnew
              · simp [Member.text, hi, hj, hrest]
      · next hkey =>
          obtain ⟨k, hk, h⟩ := gives_bind.mp h
          obtain ⟨l, hl, h⟩ := gives_bind.mp h
          obtain ⟨rfl, rfl⟩ := gives_pure.mp h
          obtain ⟨before, hbefore, hj⟩ :=
            (Input.leaves_skipColon j k.rest).mp ⟨k, eq_ok_of_lift hk, rfl⟩
          obtain ⟨behind, v, hbehind, hv, hrest⟩ := Input.exists_of_skipValue (eq_ok_of_lift hl)
          have hname : w ∉ ["output".toList, "log_level".toList, "lexer_log_level".toList] := by
            intro hmem
            simp only [List.mem_cons, List.not_mem_nil, or_false] at hmem
            obtain rfl | rfl | rfl := hmem <;> exact absurd hkey (by decide)
          refine ⟨.other w, _, ⟨⟨body, before, behind, v⟩, hbody, ⟨hbefore, hbehind⟩,
            .other hname hv, rfl⟩, nofun, rfl, ?_⟩
          simp [Member.text, hi, hj, hrest]

theorem gives_readMember
    (h : MemberOf entry item)
    (hnew : ∀ key ∈ entry.key?, s.has key = false)
    (hrest : Stops rest)
    (hi : '"' :: i.rest = item ++ rest) :
    Gives (readMember s i) (s.add entry) rest := by
  obtain ⟨⟨body, before, behind, value⟩, hname, hspaced, hvalue, rfl⟩ := h
  simp only [Member.text, quoted_append, List.append_assoc, List.cons_append] at hi
  obtain ⟨-, hi⟩ := List.cons.inj hi
  obtain ⟨j, hj, hjrest⟩ := (Input.gives_readString i entry.name _).mpr ⟨body, hname, hi⟩
  obtain ⟨k, hk, hkrest⟩ := (Input.leaves_skipColon j _).mpr ⟨before, hspaced.before, hjrest⟩
  have hkey := hvalue.ofName?_name
  simp only [readMember, hj, hkey]
  split
  · next key hentry =>
      rw [if_neg (by simp [hnew key hentry])]
      refine gives_bind.mpr ⟨k, lift_eq_ok_iff.mpr hk, (gives_readSetting _ _ key k rest).mpr ?_⟩
      exact ⟨entry, behind, value, hentry, rfl, hspaced.behind, hvalue, hkrest⟩
  · next hentry =>
      cases hvalue with
      | other _ hv =>
          obtain ⟨l, hl, hlrest⟩ := Input.leaves_skipValue hspaced.behind hv hrest hkrest
          refine gives_bind.mpr ⟨k, lift_eq_ok_iff.mpr hk, ?_⟩
          exact gives_bind.mpr ⟨l, lift_eq_ok_iff.mpr hl, gives_pure.mpr ⟨rfl, hlrest⟩⟩
      | _ => cases hentry

/-- The next member is behind its lead and an opening quote. -/
theorem exists_of_nextMember
    {first : Bool}
    (h : nextMember first i = .ok (some j)) :
    ∃ lead, Lead first lead ∧ i.rest = lead ++ '"' :: j.rest := by
  obtain ⟨gap, hgap, hi⟩ := i.exists_gap
  simp only [nextMember] at h
  split at h
  · cases h
  · next c hpeek =>
      rw [hi, Input.rest_eq_cons_of_peek hpeek]
      split at h
      · cases h
      · split at h
        · next hfirst =>
            split at h
            · next hc =>
                cases h
                exact ⟨gap, hfirst ▸ .first hgap, by rw [hc]⟩
            · cases h
        · next hfirst =>
            split at h
            · next hc =>
                obtain ⟨gap', hgap', hnext⟩ := i.skipBlanks.advance.exists_gap
                split at h
                · cases h
                · next d hd =>
                    split at h
                    · next hquote =>
                        cases h
                        refine ⟨gap ++ ',' :: gap', ?_, ?_⟩
                        · rw [Bool.eq_false_of_not_eq_true hfirst]
                          exact .comma hgap hgap'
                        · rw [hnext, Input.rest_eq_cons_of_peek hd, hc, hquote]
                          simp
                    · split at h <;> cases h
            · cases h

theorem rest_of_nextMember_eq_none
    {first : Bool}
    (h : nextMember first i = .ok none) :
    ∃ gap, Gap gap ∧ i.rest = gap ++ '\x7d' :: i.skipBlanks.advance.rest := by
  obtain ⟨gap, hgap, hi⟩ := i.exists_gap
  refine ⟨gap, hgap, ?_⟩
  simp only [nextMember] at h
  split at h
  · cases h
  · next c hpeek =>
      rw [hi, Input.rest_eq_cons_of_peek hpeek]
      split at h
      · next hc => rw [hc]
      · split at h
        · split at h <;> cases h
        · split at h
          · split at h
            · cases h
            · split at h
              · cases h
              · split at h <;> cases h
          · cases h

theorem exists_nextMember
    {first : Bool} {lead r : List Char}
    (hlead : Lead first lead)
    (hi : i.rest = lead ++ '"' :: r) :
    ∃ j, nextMember first i = .ok (some j) ∧ j.rest = r := by
  cases hlead with
  | first hgap =>
      have hblanks := (Input.skipBlanks_rest_eq_cons_iff (by decide)).mpr ⟨_, hgap, hi⟩
      refine ⟨i.skipBlanks.advance, ?_, Input.advance_rest hblanks⟩
      simp [nextMember, Input.peek_of_rest hblanks]
  | comma hgap hgap' =>
      simp only [List.append_assoc, List.cons_append] at hi
      have hblanks := (Input.skipBlanks_rest_eq_cons_iff (by decide)).mpr ⟨_, hgap, hi⟩
      have hnext := (Input.skipBlanks_rest_eq_cons_iff (by decide)).mpr
        ⟨_, hgap', Input.advance_rest hblanks⟩
      refine ⟨i.skipBlanks.advance.skipBlanks.advance, ?_, Input.advance_rest hnext⟩
      simp [nextMember, Input.peek_of_rest hblanks, Input.peek_of_rest hnext]

theorem nextMember_eq_none
    {gap r : List Char}
    (first : Bool)
    (hgap : Gap gap)
    (hi : i.rest = gap ++ '\x7d' :: r) :
    nextMember first i = .ok none ∧ i.skipBlanks.advance.rest = r := by
  have hblanks := (Input.skipBlanks_rest_eq_cons_iff (by decide)).mpr ⟨_, hgap, hi⟩
  refine ⟨?_, Input.advance_rest hblanks⟩
  simp [nextMember, Input.peek_of_rest hblanks]

/-- **All members.** A run that succeeds has read the members of an object. -/
theorem exists_of_readMembers
    {first : Bool}
    (h : Gives (readMembers first s i) t rest) :
    ∃ entries texts inner, Items first texts inner ∧ List.Forall₂ MemberOf entries texts ∧
      s.Fresh entries ∧ entries.foldl Settings.add s = t ∧ i.rest = inner ++ '\x7d' :: rest := by
  fun_induction readMembers first s i with
  | case1 => exact absurd h not_gives_error
  | case2 first s i hnext =>
      obtain ⟨rfl, rfl⟩ := gives_ok.mp h
      obtain ⟨gap, hgap, hi⟩ := rest_of_nextMember_eq_none hnext
      exact ⟨[], [], gap, .done hgap, .nil, trivial, rfl, hi⟩
  | case3 => exact absurd h not_gives_error
  | case4 first s i j hnext u k hmember ih =>
      obtain ⟨lead, hlead, hi⟩ := exists_of_nextMember hnext
      obtain ⟨entry, item, hitem, hnew, hadd, hj⟩ := exists_of_readMember ⟨k, hmember, rfl⟩
      obtain ⟨entries, texts, inner, hinner, hmembers, hfresh, hfold, hk⟩ := ih h
      refine ⟨entry :: entries, item :: texts, _, .item hlead hinner, .cons hitem hmembers,
        ⟨hnew, hadd ▸ hfresh⟩, ?_, ?_⟩
      · rw [List.foldl_cons, hadd, hfold]
      · rw [hi, hj, hk]
        simp

theorem readMembers_of_none
    {first : Bool}
    (h : nextMember first i = .ok none) :
    readMembers first s i = .ok (s, i.skipBlanks.advance) := by
  rw [readMembers]
  split
  · next e he => simp [h] at he
  · rfl
  · next j hj => simp [h] at hj

theorem readMembers_of_some
    {first : Bool} {k : Input}
    (hnext : nextMember first i = .ok (some j))
    (hmember : readMember s j = .ok (t, k)) :
    readMembers first s i = readMembers false t k := by
  conv_lhs => rw [readMembers]
  split
  · next e he => simp [hnext] at he
  · next hnone => simp [hnext] at hnone
  · next l hl =>
      obtain rfl : j = l := by simpa [hnext] using hl
      split
      · next e he => simp [hmember] at he
      · next u m hm =>
          obtain ⟨rfl, rfl⟩ : t = u ∧ k = m := by simpa [hmember] using hm
          rfl

theorem MemberOf.exists_head
    (h : MemberOf entry item) :
    ∃ cs, item = '"' :: cs := by
  obtain ⟨m, -, -, -, rfl⟩ := h
  exact ⟨_, rfl⟩

theorem gives_readMembers
    {first : Bool} {entries : List Entry} {texts : List (List Char)} {inner : List Char}
    (hinner : Items first texts inner)
    (hmembers : List.Forall₂ MemberOf entries texts)
    (hfresh : s.Fresh entries)
    (hi : i.rest = inner ++ '\x7d' :: rest) :
    Gives (readMembers first s i) (entries.foldl Settings.add s) rest := by
  induction hmembers generalizing first inner s i with
  | nil =>
      cases hinner with
      | done hgap =>
          obtain ⟨hnone, hrest⟩ := nextMember_eq_none first hgap hi
          rw [readMembers_of_none hnone]
          exact gives_ok.mpr ⟨rfl, hrest⟩
  | @cons entry item entries texts hitem _ ih =>
      cases hinner with
      | @item _ lead _ inner _ hlead hinner =>
          obtain ⟨hnew, hfresh⟩ := hfresh
          obtain ⟨cs, rfl⟩ := hitem.exists_head
          simp only [List.append_assoc, List.cons_append] at hi
          obtain ⟨j, hj, hjrest⟩ := exists_nextMember hlead hi
          have hstops : Stops (inner ++ '\x7d' :: rest) := hinner.stops_append .object rest
          have hahead : '"' :: j.rest = ('"' :: cs) ++ (inner ++ '\x7d' :: rest) := by
            rw [hjrest, List.cons_append]
          obtain ⟨k, hk, hkrest⟩ := gives_readMember hitem hnew hstops hahead
          rw [readMembers_of_some hj hk, List.foldl_cons]
          exact ih hinner hfresh hkrest

end Members

section Elements

variable {i j : Input} {s t : Settings} {rest : List Char}

theorem exists_of_nextElement
    {first : Bool}
    (h : nextElement first i = .ok (some j)) :
    ∃ lead, Lead first lead ∧ i.rest = lead ++ j.rest := by
  obtain ⟨gap, hgap, hi⟩ := i.exists_gap
  simp only [nextElement] at h
  split at h
  · cases h
  · next c hpeek =>
      split at h
      · cases h
      · split at h
        · next hfirst =>
            cases h
            exact ⟨gap, hfirst ▸ .first hgap, hi⟩
        · next hfirst =>
            split at h
            · next hc =>
                obtain ⟨gap', hgap', hnext⟩ := i.skipBlanks.advance.exists_gap
                split at h
                · cases h
                · split at h
                  · cases h
                  · cases h
                    refine ⟨gap ++ ',' :: gap', ?_, ?_⟩
                    · rw [Bool.eq_false_of_not_eq_true hfirst]
                      exact .comma hgap hgap'
                    · rw [hi, Input.rest_eq_cons_of_peek hpeek, hc, hnext]
                      simp
            · cases h

theorem rest_of_nextElement_eq_none
    {first : Bool}
    (h : nextElement first i = .ok none) :
    ∃ gap r, Gap gap ∧ i.rest = gap ++ ']' :: r := by
  obtain ⟨gap, hgap, hi⟩ := i.exists_gap
  simp only [nextElement] at h
  split at h
  · cases h
  · next c hpeek =>
      rw [hi, Input.rest_eq_cons_of_peek hpeek]
      split at h
      · next hc => exact ⟨gap, _, hgap, by rw [hc]⟩
      · split at h
        · cases h
        · split at h
          · split at h
            · cases h
            · split at h <;> cases h
          · cases h

theorem exists_nextElement
    {first : Bool} {lead r : List Char} {c : Char}
    (hlead : Lead first lead)
    (hblank : Input.isBlank c = false)
    (hc : c ≠ ']')
    (hi : i.rest = lead ++ c :: r) :
    ∃ j, nextElement first i = .ok (some j) ∧ j.rest = c :: r := by
  cases hlead with
  | first hgap =>
      have hblanks := (Input.skipBlanks_rest_eq_cons_iff hblank).mpr ⟨_, hgap, hi⟩
      refine ⟨i.skipBlanks, ?_, hblanks⟩
      simp [nextElement, Input.peek_of_rest hblanks, hc]
  | comma hgap hgap' =>
      simp only [List.append_assoc, List.cons_append] at hi
      have hblanks := (Input.skipBlanks_rest_eq_cons_iff (by decide)).mpr ⟨_, hgap, hi⟩
      have hnext := (Input.skipBlanks_rest_eq_cons_iff hblank).mpr
        ⟨_, hgap', Input.advance_rest hblanks⟩
      refine ⟨i.skipBlanks.advance.skipBlanks, ?_, hnext⟩
      simp [nextElement, Input.peek_of_rest hblanks, Input.peek_of_rest hnext, hc]

theorem nextElement_eq_none
    {gap r : List Char}
    (first : Bool)
    (hgap : Gap gap)
    (hi : i.rest = gap ++ ']' :: r) :
    nextElement first i = .ok none := by
  have hblanks := (Input.skipBlanks_rest_eq_cons_iff (by decide)).mpr ⟨_, hgap, hi⟩
  simp [nextElement, Input.peek_of_rest hblanks]

theorem leaves_closeList :
    Leaves (closeList i) rest ↔ ∃ gap, Gap gap ∧ i.rest = gap ++ ']' :: rest := by
  rw [← Input.skipBlanks_rest_eq_cons_iff (by decide), closeList]
  cases hrest : i.skipBlanks.rest with
  | nil => simp [Input.peek_of_rest_nil hrest]
  | cons c r =>
      simp only [Input.peek_of_rest hrest]
      split
      · next hc => simp [Input.advance_rest hrest, hc]
      · next hc => split <;> simp [hc]

/-- The elements of a list for the settings that may still come, and its closing bracket. -/
def readKeys (first : Bool) (s : Settings) : List Key → Input → Except Fault (Settings × Input)
  | [], i => do
    let close ← closeList i
    pure (s, close)
  | key :: keys, i => do
    let (t, j) ← readElement first s key i
    readKeys false t keys j

theorem readElements_eq (i : Input) :
    readElements i = readKeys true Settings.none Key.all i := by
  simp only [readElements, readKeys, Key.all]

/-- At the closing bracket nothing more is read, whatever may still come. -/
theorem gives_readKeys_of_close
    {gap r : List Char}
    (hgap : Gap gap)
    (hi : i.rest = gap ++ ']' :: r)
    (first : Bool)
    (keys : List Key) :
    Gives (readKeys first s keys i) s r := by
  induction keys generalizing first with
  | nil =>
      obtain ⟨j, hj, hjrest⟩ := leaves_closeList.mpr ⟨gap, hgap, hi⟩
      exact gives_bind.mpr ⟨j, hj, gives_pure.mpr ⟨rfl, hjrest⟩⟩
  | cons key keys ih =>
      have hstay : readElement first s key i = .ok (s, i) := by
        simp only [readElement, nextElement_eq_none first hgap hi]
        rfl
      exact gives_bind.mpr ⟨(s, i), hstay, ih false⟩

/-- **One element.** It adds an entry for the next setting. -/
theorem exists_of_readElement
    {first : Bool} {key : Key}
    (hnext : nextElement first i = .ok (some j))
    (h : Gives (readElement first s key i) t rest) :
    ∃ entry lead text, entry.key? = some key ∧ s.add entry = t ∧ Lead first lead ∧
      ValueOf entry text ∧ i.rest = lead ++ (text ++ rest) := by
  have hsetting : readElement first s key i = readSetting s key j := by
    simp only [readElement, hnext]
    rfl
  rw [hsetting] at h
  obtain ⟨lead, hlead, hi⟩ := exists_of_nextElement hnext
  obtain ⟨entry, gap, text, hentry, hadd, hgap, hvalue, hj⟩ :=
    (gives_readSetting s t key j rest).mp h
  exact ⟨entry, lead ++ gap, text, hentry, hadd, hlead.append hgap, hvalue, by simp [hi, hj]⟩

theorem gives_readElement
    {first : Bool} {key : Key} {entry : Entry} {lead text : List Char}
    (hentry : entry.key? = some key)
    (hlead : Lead first lead)
    (hvalue : ValueOf entry text)
    (hi : i.rest = lead ++ (text ++ rest)) :
    Gives (readElement first s key i) (s.add entry) rest := by
  obtain ⟨c, cs, rfl, hblank, hclose⟩ := Input.IsItem.exists_head hvalue.isValue
  obtain ⟨j, hj, hjrest⟩ := exists_nextElement hlead hblank (hclose .list) hi
  have hsetting : readElement first s key i = readSetting s key j := by
    simp only [readElement, hj]
    rfl
  rw [hsetting]
  exact (gives_readSetting s _ key j rest).mpr
    ⟨entry, [], c :: cs, hentry, rfl, gap_nil, hvalue, hjrest⟩

/-- **All elements.** A run that succeeds has read values of the settings in order. -/
theorem exists_of_readKeys
    {first : Bool} {keys : List Key}
    (h : Gives (readKeys first s keys i) t rest) :
    ∃ entries texts inner, Items first texts inner ∧ List.Forall₂ ValueOf entries texts ∧
      entries.map Entry.key? <+: keys.map some ∧ entries.foldl Settings.add s = t ∧
      i.rest = inner ++ ']' :: rest := by
  -- by the settings that may still come
  induction keys generalizing first s i with
  | nil =>
      obtain ⟨close, hclose, h⟩ := gives_bind.mp h
      obtain ⟨rfl, rfl⟩ := gives_pure.mp h
      obtain ⟨gap, hgap, hi⟩ := leaves_closeList.mp ⟨close, hclose, rfl⟩
      exact ⟨[], [], gap, .done hgap, .nil, List.nil_prefix, rfl, hi⟩
  | cons key keys ih =>
      obtain ⟨⟨u, k⟩, hk, htail⟩ := gives_bind.mp h
      cases hnext : nextElement first i with
      | error e => simp [readElement, hnext, Bind.bind, Except.bind] at hk
      | ok found =>
          cases found with
          | none =>
              obtain ⟨gap, r, hgap, hi⟩ := rest_of_nextElement_eq_none hnext
              obtain ⟨rfl, rfl⟩ := h.unique (gives_readKeys_of_close hgap hi first (key :: keys))
              exact ⟨[], [], gap, .done hgap, .nil, List.nil_prefix, rfl, hi⟩
          | some j =>
              obtain ⟨entry, lead, text, hentry, hadd, hlead, hvalue, hi⟩ :=
                exists_of_readElement hnext ⟨k, hk, rfl⟩
              obtain ⟨entries, texts, inner, hinner, hvalues, horder, hfold, hkrest⟩ := ih htail
              refine ⟨entry :: entries, text :: texts, _, .item hlead hinner,
                .cons hvalue hvalues, ?_, ?_, ?_⟩
              · rw [List.map_cons, List.map_cons, hentry]
                exact (List.prefix_cons_inj _).mpr horder
              · rw [List.foldl_cons, hadd, hfold]
              · simp [hi, hkrest]

theorem gives_readKeys
    {first : Bool} {keys : List Key} {entries : List Entry} {texts : List (List Char)}
    {inner : List Char}
    (hinner : Items first texts inner)
    (hvalues : List.Forall₂ ValueOf entries texts)
    (horder : entries.map Entry.key? <+: keys.map some)
    (hi : i.rest = inner ++ ']' :: rest) :
    Gives (readKeys first s keys i) (entries.foldl Settings.add s) rest := by
  induction hvalues generalizing first keys inner s i with
  | nil =>
      cases hinner with
      | done hgap => exact gives_readKeys_of_close hgap hi first keys
  | @cons entry text entries texts hvalue _ ih =>
      cases hinner with
      | @item _ lead _ inner _ hlead hinner =>
          simp only [List.append_assoc] at hi
          cases keys with
          | nil => simp at horder
          | cons key keys =>
              rw [List.map_cons, List.map_cons, List.cons_prefix_cons] at horder
              obtain ⟨k, hk, hkrest⟩ := gives_readElement (s := s) horder.1 hlead hvalue hi
              exact gives_bind.mpr ⟨_, hk, ih hinner horder.2 hkrest⟩

/-- The settings in a list are in order, so none is given twice. -/
theorem nodup_of_inOrder
    {entries : List Entry}
    (h : entries.map Entry.key? <+: Key.all.map some) :
    (entries.filterMap Entry.key?).Nodup := by
  have hkeys := h.filterMap id
  rw [List.filterMap_map, List.filterMap_map] at hkeys
  have hall : (Key.all.filterMap (id ∘ some)).Nodup := by decide
  exact hall.sublist hkeys.sublist

end Elements

section Documents

variable {i : Input} {s : Settings} {entries : List Entry} {text rest : List Char}
  {config : Config}

theorem exists_of_readSettings
    (h : Gives (readSettings i) s rest) :
    ∃ entries gap value, Gap gap ∧ Holds entries value ∧ Settings.none.Fresh entries ∧
      entries.foldl Settings.add Settings.none = s ∧ i.rest = gap ++ (value ++ rest) := by
  obtain ⟨gap, hgap, hi⟩ := i.exists_gap
  simp only [readSettings] at h
  split at h
  · exact absurd h not_gives_error
  · next c hpeek =>
      rw [Input.rest_eq_cons_of_peek hpeek] at hi
      split at h
      · next hc =>
          rw [readElements_eq] at h
          obtain ⟨entries, texts, inner, hinner, hvalues, horder, hfold, hrest⟩ :=
            exists_of_readKeys h
          have hfresh := (Settings.fresh_none_iff entries).mpr (nodup_of_inOrder horder)
          refine ⟨entries, gap, _, hgap, .list hinner hvalues horder, hfresh, hfold, ?_⟩
          rw [hi, hrest, hc, Bracket.around_append]
          rfl
      · split at h
        · next hc =>
            obtain ⟨entries, texts, inner, hinner, hmembers, hfresh, hfold, hrest⟩ :=
              exists_of_readMembers h
            have honce := (Settings.fresh_none_iff entries).mp hfresh
            refine ⟨entries, gap, _, hgap, .object hinner hmembers honce, hfresh, hfold, ?_⟩
            rw [hi, hrest, hc, Bracket.around_append]
            rfl
        · exact absurd h not_gives_error

theorem Holds.fresh
    {value : List Char}
    (h : Holds entries value) :
    Settings.none.Fresh entries := by
  rw [Settings.fresh_none_iff]
  cases h with
  | object _ _ honce => exact honce
  | list _ _ horder => exact nodup_of_inOrder horder

theorem gives_readSettings
    {gap value : List Char}
    (hgap : Gap gap)
    (h : Holds entries value)
    (hi : i.rest = gap ++ (value ++ rest)) :
    Gives (readSettings i) (entries.foldl Settings.add Settings.none) rest := by
  have hfresh := h.fresh
  cases h with
  | object hinner hmembers _ =>
      rw [Bracket.around_append] at hi
      have hblanks := (Input.skipBlanks_rest_eq_cons_iff (by decide)).mpr ⟨gap, hgap, hi⟩
      simp only [readSettings, Input.peek_of_rest hblanks]
      rw [if_neg (by decide), if_pos (by decide)]
      exact gives_readMembers hinner hmembers hfresh (Input.advance_rest hblanks)
  | list hinner hvalues horder =>
      rw [Bracket.around_append] at hi
      have hblanks := (Input.skipBlanks_rest_eq_cons_iff (by decide)).mpr ⟨gap, hgap, hi⟩
      simp only [readSettings, Input.peek_of_rest hblanks]
      rw [if_pos (by decide), readElements_eq]
      exact gives_readKeys hinner hvalues horder (Input.advance_rest hblanks)

/-- What is read of a text that is accepted: settings, and nothing behind them but a gap. -/
theorem exists_of_ofJson
    (h : ofJson text = .ok config) :
    ∃ s i, readSettings (Input.ofText text) = .ok (s, i) ∧ i.skipBlanks.rest = [] ∧
      config = s.config := by
  cases hread : readSettings (Input.ofText text) with
  | error fault => simp [ofJson, hread, Bind.bind, Except.bind] at h
  | ok found =>
      obtain ⟨s, i⟩ := found
      simp only [ofJson, hread, Bind.bind, Except.bind] at h
      split at h
      · next hend => exact ⟨s, i, rfl, List.isEmpty_iff.mp hend, (Except.ok.inj h).symm⟩
      · cases h

/-- A text that is accepted is a document that holds the settings. -/
theorem exists_documentOf
    (h : ofJson text = .ok config) :
    ∃ entries, DocumentOf entries text ∧ config = ofEntries entries := by
  obtain ⟨s, i, hread, hend, rfl⟩ := exists_of_ofJson h
  obtain ⟨entries, gap, value, hgap, hholds, hfresh, rfl, htext⟩ :=
    exists_of_readSettings ⟨i, hread, rfl⟩
  obtain ⟨gap', hgap', hrest⟩ := i.exists_gap
  rw [hend, List.append_nil] at hrest
  have hsource : text = gap ++ (value ++ gap') := hrest ▸ htext
  exact ⟨entries, hsource ▸ .value hgap hholds.isValue hholds hgap',
    Settings.config_foldl_add hfresh⟩

end Documents

/-- **Configurations.** A text is accepted, with a configuration, if and only if it is a document
that holds entries of which this configuration is made. -/
theorem ofJson_eq_ok_iff (text : List Char) (config : Config) :
    ofJson text = .ok config ↔ ∃ entries, DocumentOf entries text ∧ config = ofEntries entries := by
  constructor
  · exact exists_documentOf
  · rintro ⟨entries, ⟨hgap, _, hholds, hgap'⟩, rfl⟩
    obtain ⟨i, hread, hi⟩ := gives_readSettings (i := Input.ofText _) hgap hholds rfl
    have hend : i.skipBlanks.rest = [] := by
      refine Input.skipBlanks_rest hgap' ?_ nofun
      rw [hi, List.append_nil]
    simp only [ofJson, hread, Bind.bind, Except.bind, hend, List.isEmpty_nil, if_true]
    rw [Settings.config_foldl_add hholds.fresh]
    rfl

end Config
end TokenStream
