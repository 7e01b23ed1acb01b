import TokenStream.Token.Json
import TokenStream.Proofs.JsonNumbers
import TokenStream.Proofs.JsonStrings
import TokenStream.Proofs.RoundTrip

/-!
# Listings as JSON documents

A listing in the JSON format is a list with one object for each token, which has a member for the
tag of the token and one for its value. What is said of such a document is said by the grammar,
without regard to its layout.

**Results** the text of a string denotes the string, the object that is written for a token is an
element for this token, and what is written for a list of tokens is a document with its elements.
-/

namespace TokenStream

open Json

namespace Json

section Strings

/-- The escape of a control by its number has four hexadecimal digits. -/
theorem hexQuad_hexText4
    {n : Nat}
    (h : n < 0x20) :
    HexQuad n (hexText4 n) := by
  have hdigits : ∀ n < 0x20, (hexText4 n).length = 4 ∧
      ((hexText4 n).mapM hexDigit?).map (fun ns => ns.foldl (fun n d => 16 * n + d) 0) =
        some n := by
    decide
  obtain ⟨hlength, hvalue⟩ := hdigits n h
  exact (Input.hexQuad_iff n _).mpr ⟨hlength, Option.map_eq_some_iff.mp hvalue⟩

/-- What is written for a character denotes it. -/
theorem denotes_escapeChar_append
    {value body : List Char}
    (c : Char)
    (h : Denotes value body) :
    Denotes (c :: value) (escapeChar c ++ body) := by
  have hletter {d : Char} (hd : Letter d c) : Denotes (c :: value) (['\\', d] ++ body) :=
    .escape (.letter hd) h
  unfold escapeChar
  split_ifs with hquote hbackslash hbackspace hformFeed hnewline hreturn htab hcontrol
  · exact hletter (hquote ▸ .quote)
  · exact hletter (hbackslash ▸ .backslash)
  · exact hletter (hbackspace ▸ .backspace)
  · exact hletter (hformFeed ▸ .formFeed)
  · exact hletter (hnewline ▸ .newline)
  · exact hletter (hreturn ▸ .carriageReturn)
  · exact hletter (htab ▸ .tab)
  · have hcode : CodeOf (Char.ofNat c.toNat) (hexText4 c.toNat) :=
      .scalar (hexQuad_hexText4 hcontrol) (.inl (by omega))
    rw [Char.ofNat_toNat] at hcode
    exact .escape (.code hcode) h
  · exact .plain ⟨hquote, hbackslash, Nat.not_lt.mp hcontrol⟩ h

theorem denotes_flatMap_escapeChar (cs : List Char) :
    Denotes cs (cs.flatMap escapeChar) := by
  induction cs with
  | nil => exact .empty
  | cons c cs ih => exact denotes_escapeChar_append c ih

theorem stringText_eq_quoted (cs : List Char) :
    stringText cs = quoted (cs.flatMap escapeChar) := rfl

end Strings

end Json

/-- The text that a token carries, if it is not a number. -/
def Token.payload? : Token → Option (List Char)
  | punctuation p => some [p.char]
  | number _ => none
  | string s => some s
  | keyword k => some k.word
  | identifier name => some name
  | operator symbol => some symbol

namespace Listing

/-- The values by which a token is given: a string, a number to which the number of the token is the
nearest, or `null` for infinity. -/
inductive ValueOf : Token → List Char → Prop
  | string
      {t : Token} {s body : List Char}
      (ht : t.payload? = some s)
      (hbody : Denotes s body) :
      ValueOf t (quoted body)
  | number
      {text : List Char}
      (htext : IsNumber text) :
      ValueOf (.number (Decimal.nearest text)) text
  | infinity : ValueOf (.number .infinity) "null".toList

/-- The objects by which a token is given: its tag and its value, in this order. -/
inductive ElementOf (t : Token) : List Char → Prop
  | members
      {type value : Member} {body inner : List Char}
      (htype : Denotes "type".toList type.body)
      (htypeSpaced : type.Spaced)
      (htag : type.value = quoted body)
      (hbody : Denotes t.tag body)
      (hvalue : Denotes "value".toList value.body)
      (hvalueSpaced : value.Spaced)
      (hvalueOf : ValueOf t value.value)
      (hinner : Items true [type.text, value.text] inner) :
      ElementOf t (Bracket.object.around inner)

/-- A JSON document that is a list with one element for each token. -/
inductive DocumentOf (tokens : List Token) : List Char → Prop
  | elements
      {gap inner gap' : List Char} {texts : List (List Char)}
      (hgap : Gap gap)
      (hvalue : IsValue (Bracket.list.around inner))
      (hinner : Items true texts inner)
      (helements : List.Forall₂ ElementOf tokens texts)
      (hgap' : Gap gap') :
      DocumentOf tokens (gap ++ (Bracket.list.around inner ++ gap'))

section Elements

theorem ValueOf.isValue
    {t : Token} {text : List Char}
    (h : ValueOf t text) :
    IsValue text := by
  cases h with
  | string _ hbody => exact .scalar (.string hbody.isBody)
  | number htext => exact .scalar (.number htext)
  | infinity => exact .scalar .null

theorem ElementOf.isValue
    {t : Token} {text : List Char}
    (h : ElementOf t text) :
    IsValue text := by
  obtain ⟨htype, htypeSpaced, htag, hbody, hvalue, hvalueSpaced, hvalueOf, hinner⟩ := h
  have htagValue : IsValue _ := .scalar (.string hbody.isBody)
  refine .bracket hinner (List.forall_mem_cons.mpr ⟨?_, List.forall_mem_singleton.mpr ?_⟩)
  · exact .member htype.isBody htypeSpaced (htag ▸ htagValue)
  · exact .member hvalue.isBody hvalueSpaced hvalueOf.isValue

end Elements

section Written

/-- A number that is infinite and has no sign is infinity. -/
theorem eq_infinity
    {x : Binary64}
    (h : (Token.number x).WellFormed)
    (hinfinite : x.isInfinite = true) :
    x = .infinity := by
  have hmagnitude : x.magnitude = Binary64.infinityPattern := by
    simpa [Binary64.isInfinite] using hinfinite
  rw [← Binary64.ofPattern_magnitude x, h.2, hmagnitude, Binary64.infinity]

theorem text_infinity (layout : Decimal.Layout) :
    layout.text .infinity = layout.infinity false := by
  have hkind : Binary64.infinity.kind = .infinite false := by decide
  simp [Decimal.Layout.text, hkind]

/-- What is written for a number gives it. -/
theorem valueOf_number
    {x : Binary64}
    (h : (Token.number x).WellFormed) :
    ValueOf (.number x) (Decimal.Layout.json.text x) := by
  cases hinfinite : x.isInfinite with
  | true =>
      rw [eq_infinity h hinfinite, text_infinity]
      exact .infinity
  | false =>
      have hvalue := ValueOf.number (Decimal.isNumber_json h.1 hinfinite h.2)
      rwa [Decimal.nearest_json h.1 hinfinite h.2] at hvalue

theorem valueOf_jsonValue
    {t : Token}
    (h : t.WellFormed) :
    ValueOf t t.jsonValue := by
  cases t with
  | number x => exact valueOf_number h
  | _ => exact .string rfl (denotes_flatMap_escapeChar _)

/-- A text without quotes, backslashes and controls denotes itself. -/
theorem denotes_self
    {cs : List Char}
    (h : ∀ c ∈ cs, Unescaped c) :
    Denotes cs cs := by
  induction cs with
  | nil => exact .empty
  | cons c cs ih =>
      obtain ⟨hc, hcs⟩ := List.forall_mem_cons.mp h
      exact .plain hc (ih hcs)

/-- A member as it is written, with one blank behind its colon. -/
def memberWith (name value : List Char) : Member :=
  ⟨name, [], [' '], value⟩

theorem spaced_memberWith (name value : List Char) :
    (memberWith name value).Spaced :=
  ⟨gap_of_all rfl, gap_of_all rfl⟩

theorem prettyJson_eq (t : Token) :
    t.prettyJson = "  ".toList ++ Bracket.object.around ("\n    ".toList ++
      ((memberWith "type".toList (stringText t.tag)).text ++ (([] ++ ',' :: "\n    ".toList) ++
        ((memberWith "value".toList t.jsonValue).text ++ "\n  ".toList)))) := by
  have hlayout : t.prettyJson = "  \x7b\n    \"type\": ".toList ++ stringText t.tag ++
      ",\n    \"value\": ".toList ++ t.jsonValue ++ "\n  \x7d".toList := rfl
  rw [hlayout]
  simp [Bracket.around, Bracket.opening, Bracket.close, Member.text, memberWith, quoted]

/-- Behind its indentation, what is written for a token is an element for it. -/
theorem exists_elementOf_prettyJson
    {t : Token}
    (h : t.WellFormed) :
    ∃ text, ElementOf t text ∧ t.prettyJson = "  ".toList ++ text := by
  have htype : Denotes "type".toList "type".toList := denotes_self (by simp [Unescaped])
  have hvalue : Denotes "value".toList "value".toList := denotes_self (by simp [Unescaped])
  have hindent : Gap "\n    ".toList := gap_of_all rfl
  have hclose : Gap "\n  ".toList := gap_of_all rfl
  have hinner : Items true [(memberWith "type".toList (stringText t.tag)).text,
      (memberWith "value".toList t.jsonValue).text] _ :=
    .item (.first hindent) (.item (.comma gap_nil hindent) (.done hclose))
  exact ⟨_, .members htype (spaced_memberWith _ _) (stringText_eq_quoted t.tag)
    (denotes_flatMap_escapeChar t.tag) hvalue (spaced_memberWith _ _) (valueOf_jsonValue h) hinner,
    prettyJson_eq t⟩

/-- What is written between the brackets of a list of tokens, from any place on at which an element
may stand. -/
theorem exists_items_prettyElements
    {tokens : List Token}
    (h : ∀ t ∈ tokens, t.WellFormed)
    (hne : tokens ≠ []) :
    ∃ texts, List.Forall₂ ElementOf tokens texts ∧
      ∀ {first : Bool} {front : List Char}, Lead first (front ++ "\n  ".toList) →
        Items first texts (front ++ '\n' :: (Token.prettyElements tokens ++ ['\n'])) := by
  induction tokens with
  | nil => exact absurd rfl hne
  | cons t tokens ih =>
      obtain ⟨ht, htokens⟩ := List.forall_mem_cons.mp h
      obtain ⟨text, helement, htext⟩ := exists_elementOf_prettyJson ht
      cases tokens with
      | nil =>
          refine ⟨[text], .cons helement .nil, ?_⟩
          intro first front hlead
          have hitems : Items first [text] _ := .item hlead (.done (gap_of_all (w := ['\n']) rfl))
          simpa [Token.prettyElements, htext] using hitems
      | cons u tokens =>
          obtain ⟨texts, helements, hitems⟩ := ih htokens (by simp)
          refine ⟨text :: texts, .cons helement helements, ?_⟩
          intro first front hlead
          have hcomma : Lead false ([','] ++ "\n  ".toList) := .comma gap_nil (gap_of_all rfl)
          have hitems : Items first (text :: texts) _ := .item hlead (hitems hcomma)
          simpa [Token.prettyElements, htext] using hitems

/-- What is written for a list of tokens is a document with these tokens. -/
theorem documentOf_prettyList
    {tokens : List Token}
    (h : ∀ t ∈ tokens, t.WellFormed) :
    DocumentOf tokens (Token.prettyList tokens ++ ['\n']) := by
  have hdocument {texts : List (List Char)} {inner : List Char} (hinner : Items true texts inner)
      (helements : List.Forall₂ ElementOf tokens texts) :
      DocumentOf tokens (Bracket.list.around inner ++ ['\n']) :=
    .elements gap_nil (.bracket hinner (forall_of_forall₂ helements fun _ _ h => h.isValue)) hinner
      helements (gap_of_all rfl)
  cases tokens with
  | nil => exact hdocument (.done gap_nil) .nil
  | cons t tokens =>
      obtain ⟨texts, helements, hitems⟩ := exists_items_prettyElements h (by simp)
      have hlead : Lead true ([] ++ "\n  ".toList) := .first (gap_of_all rfl)
      have hlist := hdocument (hitems hlead) helements
      simpa [Token.prettyList, Bracket.around, Bracket.opening, Bracket.close] using hlist

end Written
end Listing
end TokenStream
