import TokenStream.Files
import TokenStream.Proofs.JsonListing
import TokenStream.Proofs.Writing

/-!
# Decoding listings

A listing can be read back in both formats. In the text format nothing marks where a line of a
token ends, since the text of a string may hold newlines; but the text of a token can be read as a
source text, and in front of a newline no spelling goes on, so that it ends where the line does.
Only infinity has no spelling, and a line of its own. In the JSON format each object has a fixed
layout around its tag and its value.

**Algorithm** a decoder takes one token after another from the front of the text. What it takes for
a token is found again whatever stands behind it, so that the pieces of a listing may be taken one
by one.

**Results** the piece of each token is read back, so are all pieces of a listing, and a listing is a
document; so two listings are the same exactly if their tokens are.
-/

namespace TokenStream

open Json

namespace Text

theorem decode_utf8 (cs : List Char) :
    decode (utf8 cs).toByteArray = .ok cs := by
  have hvalid : cs.utf8Encode.IsValidUTF8 := (String.ofList cs).isValidUTF8
  have hbytes : (utf8 cs).toByteArray = cs.utf8Encode := rfl
  have hstring : String.fromUTF8 cs.utf8Encode hvalid = String.ofList cs := rfl
  simp only [decode, hbytes, String.fromUTF8?, dif_pos hvalid, hstring, String.toList_ofList]

end Text

namespace Listing

/-- What stands behind a text of known length. -/
def behind (front text : List Char) : List Char :=
  text.drop front.length

@[simp] theorem behind_append (front rest : List Char) :
    behind front (front ++ rest) = rest :=
  List.drop_left

/-- Takes tokens from the front of a text, as long as one is found there. -/
def takeTokens (read? : List Char → Option (Token × List Char)) (text : List Char) : List Token :=
  match read? text with
  | none => []
  | some (t, rest) =>
    if rest.length < text.length then t :: takeTokens read? rest else []
termination_by text.length

/-- The piece is read as the token, whatever stands behind it. -/
def ReadAs (read? : List Char → Option (Token × List Char)) (t : Token) (piece : List Char) :
    Prop :=
  piece ≠ [] ∧ ∀ rest, read? (piece ++ rest) = some (t, rest)

section Pieces

variable {read? : List Char → Option (Token × List Char)}

/-- Pieces are taken one by one, up to a text in front of which no token is found. -/
theorem takeTokens_flatten_append
    {tokens : List Token} {pieces : List (List Char)} {tail : List Char}
    (h : List.Forall₂ (ReadAs read?) tokens pieces)
    (htail : read? tail = none) :
    takeTokens read? (pieces.flatten ++ tail) = tokens := by
  induction h with
  | nil =>
      rw [takeTokens]
      simp [htail]
  | @cons t piece tokens pieces ht _ ih =>
      have hlength : (pieces.flatten ++ tail).length <
          (piece ++ (pieces.flatten ++ tail)).length := by
        have hpos : 0 < piece.length := List.length_pos_iff.mpr ht.1
        simp only [List.length_append]
        omega
      rw [takeTokens, List.flatten_cons, List.append_assoc, ht.2]
      simp only [if_pos hlength, ih]

end Pieces

section Lines

/-- The line of infinity, which no numeral spells. -/
def infinityLine : List Char := ['n', 'u', 'm', ' ', ' ', ' ', 'i', 'n', 'f', '\n']

/-- The token of a line, and what stands behind the line. -/
def readLine? (text : List Char) : Option (Token × List Char) :=
  if infinityLine.isPrefixOf text then some (.number .infinity, behind infinityLine text)
  else
    let spelled := text.drop 6
    (Lexeme.read? spelled).map fun x => (x.token, spelled.drop (x.spelling.length + 1))

/-- A line has its text behind a field of six characters. -/
theorem drop_line_append (t : Token) (rest : List Char) :
    (t.line ++ rest).drop 6 = t.text ++ rest := by
  cases t <;> rfl

theorem line_infinity :
    (Token.number .infinity).line ++ ['\n'] = infinityLine := by
  have htext : (Token.number .infinity).text = "inf".toList := text_infinity .plain
  rw [Token.line, htext]
  rfl

/-- No token but infinity has its line. -/
theorem isPrefixOf_line
    {t : Token}
    (h : t.WellFormed)
    (hfinite : t.IsFinite)
    (rest : List Char) :
    infinityLine.isPrefixOf (t.line ++ rest) = false := by
  cases t with
  | number x =>
      obtain ⟨n, hn, hspelling, -⟩ := Decimal.exists_numeral_plain h.1 hfinite h.2
      obtain ⟨c, cs, hcons, hc⟩ := hn.spelling_eq_cons
      have hne : 'i' ≠ c := (ne_of_class hc (by decide)).symm
      have htext : (Token.number x).text = c :: cs := hspelling.symm.trans hcons
      simp [infinityLine, Token.line, Token.tag, htext, List.isPrefixOf_cons_cons, hne]
  | _ => simp [infinityLine, Token.line, Token.tag, List.isPrefixOf_cons_cons]

theorem readAs_line
    {t : Token}
    (h : t.WellFormed) :
    ReadAs readLine? t (t.line ++ ['\n']) := by
  refine ⟨by simp, ?_⟩
  intro rest
  by_cases hfinite : t.IsFinite
  · have hend : EndsBefore t t.text ('\n' :: rest) := by
      rintro a ⟨⟩
      exact continues_eq_false_of_opensTrivia (by decide) _ t
    have hread := Lexeme.read?_of_spells (h.spells_text hfinite) hend
    have hnot := isPrefixOf_line h hfinite ('\n' :: rest)
    rw [List.append_assoc, List.singleton_append, readLine?, hnot, drop_line_append]
    simp [hread]
  · cases t with
    | number x =>
        rw [eq_infinity h (by simpa [Token.IsFinite] using hfinite), line_infinity]
        have hprefix : infinityLine.isPrefixOf (infinityLine ++ rest) = true := by simp
        rw [readLine?, if_pos hprefix, behind_append]
    | _ => exact absurd trivial hfinite

end Lines

section Elements

/-- The token with this tag that carries this text. -/
def tokenOf? (tag payload : List Char) : Option Token :=
  if tag = "punc".toList then
    (payload.head?.bind Punctuation.ofChar?).map Token.punctuation
  else if tag = "kw".toList then (Keyword.ofWord? payload).map Token.keyword
  else if tag = "str".toList then some (.string payload)
  else if tag = "var".toList then some (.identifier payload)
  else if tag = "op".toList then some (.operator payload)
  else none

/-- A string, and what stands behind it. -/
def readString? (text : List Char) : Option (List Char × List Char) :=
  match (Input.ofText (text.drop 1)).readString with
  | .ok (s, i) => some (s, i.rest)
  | .error _ => none

/-- A number that ends with its line, and what stands behind it. -/
def readNumber (text : List Char) : Binary64 × List Char :=
  let number := text.takeWhile (· ≠ '\n')
  (if number = "null".toList then .infinity else Decimal.nearest number, behind number text)

/-- What stands in front of the tag of a token. -/
def elementFront : List Char := "  \x7b\n    \"type\": ".toList

/-- What stands between the tag and the value of a token. -/
def elementMiddle : List Char := ",\n    \"value\": ".toList

/-- What stands behind the value of a token. -/
def elementBack : List Char := ['\n', ' ', ' ', '\x7d']

/-- The token with this tag whose value is written in front of a text, and what stands behind the
value. -/
def readValue? (tag text : List Char) : Option (Token × List Char) :=
  if tag = "num".toList then
    let (x, rest) := readNumber text
    some (.number x, rest)
  else do
    let (payload, rest) ← readString? text
    let t ← tokenOf? tag payload
    return (t, rest)

/-- The token of an object, and what stands behind the object and the two characters that divide it
from the next one or from the end. -/
def readElement? (text : List Char) : Option (Token × List Char) := do
  let (tag, rest) ← readString? (behind elementFront text)
  let (t, rest) ← readValue? tag (behind elementMiddle rest)
  return (t, (behind elementBack rest).drop 2)

theorem prettyJson_eq_layout (t : Token) :
    t.prettyJson =
      elementFront ++ stringText t.tag ++ elementMiddle ++ t.jsonValue ++ elementBack := rfl

theorem tokenOf?_payload
    {t : Token} {payload : List Char}
    (h : t.payload? = some payload) :
    tokenOf? t.tag payload = some t := by
  cases t with
  | number x => cases h
  | punctuation p =>
      obtain rfl := Option.some.inj h
      simp [tokenOf?, Token.tag]
  | keyword k =>
      obtain rfl := Option.some.inj h
      simp [tokenOf?, Token.tag]
  | _ =>
      obtain rfl := Option.some.inj h
      rfl

theorem readString?_stringText (s rest : List Char) :
    readString? (stringText s ++ rest) = some (s, rest) := by
  obtain ⟨i, hread, hrest⟩ := (Input.gives_readString
    (Input.ofText ((stringText s ++ rest).drop 1)) s rest).mpr
      ⟨_, denotes_flatMap_escapeChar s, by simp [stringText, Input.ofText]⟩
  simp only [readString?, hread, hrest]

/-- The text of a number stands on one line. -/
theorem newline_notMem_of_isNumber
    {text : List Char}
    (h : IsNumber text) :
    '\n' ∉ text := by
  have hdigits {ds : List Char} (hds : Digits ds) : '\n' ∉ ds := fun hmem =>
    ne_of_class (hds.2 _ hmem) (by decide) rfl
  have hunsigned {text : List Char} (h : IsUnsigned text) : '\n' ∉ text := by
    obtain ⟨hwhole, hfraction, hexponent⟩ := h
    simp only [List.mem_append, not_or]
    refine ⟨?_, ?_, ?_⟩
    · cases hwhole with
      | zero => decide
      | digits _ hds => exact hdigits hds
    · cases hfraction with
      | none => exact List.not_mem_nil
      | point hds => simp [hdigits hds]
    · cases hexponent with
      | none => exact List.not_mem_nil
      | mark he hsign hds =>
          rcases he with rfl | rfl <;> rcases hsign with rfl | rfl | rfl <;> simp [hdigits hds]
  cases h with
  | positive h => exact hunsigned h
  | negative h => simp [hunsigned h]

theorem ne_null_of_isNumber
    {text : List Char}
    (h : IsNumber text) :
    text ≠ "null".toList := by
  cases h with
  | positive h =>
      obtain ⟨d, ds, rfl, hd⟩ := h.exists_eq_cons
      have hne : d ≠ 'n' := ne_of_class hd (by decide)
      simp [hne]
  | negative h => simp

theorem readNumber_append
    {number : List Char}
    (h : '\n' ∉ number)
    (rest : List Char) :
    readNumber (number ++ '\n' :: rest) =
      (if number = "null".toList then .infinity else Decimal.nearest number, '\n' :: rest) := by
  have htake : (number ++ '\n' :: rest).takeWhile (· ≠ '\n') = number := by
    refine takeWhile_append_of_stop ?_ (by simp)
    intro c hc
    simpa using ne_of_mem_of_not_mem hc h
  simp only [readNumber, htake, behind_append]

theorem readNumber_json
    {x : Binary64}
    (h : (Token.number x).WellFormed)
    (rest : List Char) :
    readNumber (Decimal.Layout.json.text x ++ '\n' :: rest) = (x, '\n' :: rest) := by
  cases hinfinite : x.isInfinite with
  | true =>
      obtain rfl := eq_infinity h hinfinite
      have htext : Decimal.Layout.json.text .infinity = "null".toList := text_infinity .json
      rw [htext, readNumber_append (by simp), if_pos rfl]
  | false =>
      have hnumber := Decimal.isNumber_json h.1 hinfinite h.2
      rw [readNumber_append (newline_notMem_of_isNumber hnumber),
        if_neg (ne_null_of_isNumber hnumber), Decimal.nearest_json h.1 hinfinite h.2]

theorem readValue?_jsonValue
    {t : Token}
    (h : t.WellFormed)
    (rest : List Char) :
    readValue? t.tag (t.jsonValue ++ '\n' :: rest) = some (t, '\n' :: rest) := by
  cases hpayload : t.payload? with
  | none =>
      cases t with
      | number x =>
          have hnumber := readNumber_json h rest
          simp [readValue?, Token.tag, Token.jsonValue, hnumber]
      | _ => cases hpayload
  | some payload =>
      have hvalue : t.jsonValue = stringText payload := by
        cases t <;> cases hpayload <;> rfl
      have htag : t.tag ≠ "num".toList := by
        cases t <;> simp_all [Token.tag, Token.payload?]
      rw [readValue?, if_neg htag, hvalue, readString?_stringText]
      simp [tokenOf?_payload hpayload]

/-- What is written for a token, with what divides it from the next one or from the end, is read as
the token. -/
theorem readAs_prettyJson
    {t : Token} {division : List Char}
    (h : t.WellFormed)
    (hdivision : division.length = 2) :
    ReadAs readElement? t (t.prettyJson ++ division) := by
  refine ⟨by simp [prettyJson_eq_layout, stringText], ?_⟩
  intro rest
  have hlayout : t.prettyJson ++ division ++ rest =
      elementFront ++ (stringText t.tag ++ (elementMiddle ++
        (t.jsonValue ++ (elementBack ++ (division ++ rest))))) := by
    rw [prettyJson_eq_layout]
    simp only [List.append_assoc]
  have hvalue : readValue? t.tag (t.jsonValue ++ (elementBack ++ (division ++ rest))) =
      some (t, elementBack ++ (division ++ rest)) := readValue?_jsonValue h _
  have hrest : (division ++ rest).drop 2 = rest := by
    rw [← hdivision, List.drop_left]
  simp [readElement?, hlayout, readString?_stringText, hvalue, hrest]

theorem readElement?_newline : readElement? ['\n'] = none := by
  have hfront : behind elementFront ['\n'] = [] := rfl
  have hstring : readString? [] = none := by
    rw [readString?, Input.readString]
    rfl
  rw [readElement?, hfront, hstring]
  rfl

/-- The elements of a list that is not empty, and its end, in pieces that are read one by one. -/
theorem exists_pieces_prettyElements
    {tokens : List Token}
    (h : ∀ t ∈ tokens, t.WellFormed)
    (hne : tokens ≠ []) :
    ∃ pieces, List.Forall₂ (ReadAs readElement?) tokens pieces ∧
      Token.prettyElements tokens ++ "\n]".toList = pieces.flatten := by
  induction tokens with
  | nil => exact absurd rfl hne
  | cons t tokens ih =>
      obtain ⟨ht, htokens⟩ := List.forall_mem_cons.mp h
      cases tokens with
      | nil =>
          refine ⟨[t.prettyJson ++ "\n]".toList], .cons (readAs_prettyJson ht rfl) .nil, ?_⟩
          simp [Token.prettyElements]
      | cons u tokens =>
          obtain ⟨pieces, hpieces, hflatten⟩ := ih htokens (by simp)
          refine ⟨(t.prettyJson ++ ",\n".toList) :: pieces,
            .cons (readAs_prettyJson ht rfl) hpieces, ?_⟩
          rw [List.flatten_cons, ← hflatten, Token.prettyElements]
          · simp only [List.append_assoc]
          · exact List.cons_ne_nil u tokens

end Elements

section Listings

variable {source source' : List Char} {tokens tokens' : List Token}

/-- The tokens of a listing. -/
def tokensOf (format : Format) (text : List Char) : List Token :=
  match format with
  | .text => takeTokens readLine? text
  | .json => takeTokens readElement? (text.drop 2)

/-- The tokens of a listing in bytes. -/
def decode (format : Format) (bytes : List UInt8) : List Token :=
  match Text.decode bytes.toByteArray with
  | .ok text => tokensOf format text
  | .error _ => []

/-- What a sink without a limit keeps of the listing of a text. -/
def output (source : List Char) (format : Format) : List UInt8 :=
  (list source format (Sink.empty none)).sink.contents

/-- What is written of tokens that have all been read. -/
def wholeOf (tokens : List Token) : Format → List Char
  | .text => lines tokens
  | .json => Token.prettyList tokens ++ ['\n']

theorem output_of_tokenize
    (h : tokenize source = .ok tokens)
    (format : Format) :
    output source format = Text.utf8 (wholeOf tokens format) := by
  have hresult : (Reader.ofSource source).readAll.result = .ok tokens := h
  have hwhole : whole (Reader.ofSource source).readAll format = wholeOf tokens format := by
    cases format with
    | text => exact congrArg lines (Reading.result_eq_ok_iff.mp hresult).2
    | json => simp only [whole, hresult, wholeOf]
  rw [← hwhole]
  exact (listed_ofReading format (Reader.ofSource source).readAll none).contents_eq

/-- A sink without a limit takes a listing to its end. -/
theorem outcome_eq (source : List Char) (format : Format) :
    (list source format (Sink.empty none)).outcome =
      match tokenize source with
      | .ok tokens => .ok tokens.length
      | .error e => .error (.lex e) :=
  (listed_ofReading format (Reader.ofSource source).readAll none).outcome_of_fits nofun

theorem tokensOf_lines
    (h : ∀ t ∈ tokens, t.WellFormed) :
    tokensOf .text (lines tokens) = tokens := by
  have hpieces : List.Forall₂ (ReadAs readLine?) tokens
      (tokens.map fun t => t.line ++ ['\n']) := by
    rw [List.forall₂_map_right_iff, List.forall₂_same]
    intro t ht
    exact readAs_line (h t ht)
  have htokens : takeTokens readLine? (_ ++ []) = tokens := takeTokens_flatten_append hpieces rfl
  rwa [List.append_nil, ← List.flatMap_def] at htokens

theorem tokensOf_prettyList
    (h : ∀ t ∈ tokens, t.WellFormed) :
    tokensOf .json (Token.prettyList tokens ++ ['\n']) = tokens := by
  cases tokens with
  | nil => exact takeTokens_flatten_append .nil readElement?_newline
  | cons t tokens =>
      obtain ⟨pieces, hpieces, hflatten⟩ := exists_pieces_prettyElements h (by simp)
      have htext : (Token.prettyList (t :: tokens) ++ ['\n']).drop 2 =
          pieces.flatten ++ ['\n'] := by
        rw [← hflatten]
        simp [Token.prettyList]
      rw [tokensOf, htext]
      exact takeTokens_flatten_append hpieces readElement?_newline

/-- The tokens of a listing are read back from its bytes. -/
theorem decode_output
    (h : tokenize source = .ok tokens)
    (format : Format) :
    decode format (output source format) = tokens := by
  obtain ⟨d, hlawful, -, rfl⟩ := Division.exists_lawful_of_tokenize h
  rw [decode, output_of_tokenize h, Text.decode_utf8]
  cases format with
  | text => exact tokensOf_lines hlawful.wellFormed
  | json => exact tokensOf_prettyList hlawful.wellFormed

/-- In each format the listings of two texts are the same exactly if their tokens are. -/
theorem output_eq_iff
    (h : tokenize source = .ok tokens)
    (h' : tokenize source' = .ok tokens')
    (format : Format) :
    output source format = output source' format ↔ tokens = tokens' := by
  constructor
  · intro houtput
    rw [← decode_output h format, houtput, decode_output h' format]
  · rintro rfl
    rw [output_of_tokenize h, output_of_tokenize h']

/-- **Listings are uniquely decodable.** From what is written to a sink without a limit the tokens
are read back in both formats, numbers bit for bit; in the JSON format it is a document with one
object for each token. So for two texts that are read without an error the listings in the text
format are the same exactly if those in the JSON format are, and exactly if the tokens are. -/
theorem listings_uniquely_decodable :
    (∀ source tokens, tokenize source = .ok tokens →
      (∀ format, (list source format (Sink.empty none)).outcome = .ok tokens.length ∧
        decode format (output source format) = tokens) ∧
      ∃ text, output source .json = Text.utf8 text ∧ DocumentOf tokens text) ∧
    ∀ source source' tokens tokens',
      tokenize source = .ok tokens → tokenize source' = .ok tokens' →
      (output source .text = output source' .text ↔ output source .json = output source' .json) ∧
      (output source .json = output source' .json ↔ tokens = tokens') := by
  constructor
  · intro source tokens h
    refine ⟨fun format => ⟨?_, decode_output h format⟩, _, output_of_tokenize h .json, ?_⟩
    · have hlisted := listed_ofReading format (Reader.ofSource source).readAll none
      have hresult : (Reader.ofSource source).readAll.result = .ok tokens := h
      refine (hlisted.outcome_of_fits nofun).trans ?_
      simp only [verdict, hresult]
    · obtain ⟨d, hlawful, -, rfl⟩ := Division.exists_lawful_of_tokenize h
      exact documentOf_prettyList hlawful.wellFormed
  · intro source source' tokens tokens' h h'
    rw [output_eq_iff h h' .text, output_eq_iff h h' .json]
    exact ⟨Iff.rfl, Iff.rfl⟩

end Listings
end Listing

end TokenStream
