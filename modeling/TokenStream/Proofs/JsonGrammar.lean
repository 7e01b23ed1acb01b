import TokenStream.Json.Skipping
import Mathlib.Tactic

/-!
# The grammar of JSON

Which texts are JSON values, without regard to how they are read. A string has a body between its
quotes, each unit of which is one character as it stands, a letter escape or an escape by four
hexadecimal digits. Whether a body is one is a matter of form; what it denotes is another, since
the halves of surrogate pairs denote something only together.

Between the brackets of a list stand values, between those of an object members; both are the
items of a bracket here, so that what is true of brackets is said once.

**Results** the tables of the reader are those of the grammar; a body that denotes something has
the form of a body.
-/

namespace TokenStream
namespace Json

/-- Blanks around the tokens of a document. -/
def Gap (w : List Char) : Prop :=
  ∀ c ∈ w, c = ' ' ∨ c = '\t' ∨ c = '\n' ∨ c = '\r'

/-- A letter behind a backslash, and what it stands for. -/
inductive Letter : Char → Char → Prop
  | quote : Letter '"' '"'
  | backslash : Letter '\\' '\\'
  | slash : Letter '/' '/'
  | backspace : Letter 'b' '\x08'
  | formFeed : Letter 'f' '\x0c'
  | newline : Letter 'n' '\n'
  | carriageReturn : Letter 'r' '\r'
  | tab : Letter 't' '\t'

/-- A hexadecimal digit of either case with its value. -/
def HexDigit (n : Nat) (c : Char) : Prop :=
  "0123456789abcdef".toList[n]? = some c ∨ "0123456789ABCDEF".toList[n]? = some c

/-- Four hexadecimal digits and the number that they write. -/
inductive HexQuad : Nat → List Char → Prop
  | digits
      {a b c d : Nat} {x y z w : Char}
      (ha : HexDigit a x)
      (hb : HexDigit b y)
      (hc : HexDigit c z)
      (hd : HexDigit d w) :
      HexQuad (16 * (16 * (16 * a + b) + c) + d) [x, y, z, w]

/-- A character that stands in a string as it is. -/
def Unescaped (c : Char) : Prop :=
  c ≠ '"' ∧ c ≠ '\\' ∧ 0x20 ≤ c.toNat

/-- The form of an escape, behind its backslash. -/
inductive EscapeForm : List Char → Prop
  | letter
      {c d : Char}
      (h : Letter c d) :
      EscapeForm [c]
  | code
      {n : Nat} {ds : List Char}
      (h : HexQuad n ds) :
      EscapeForm ('u' :: ds)

/-- The form of what stands between the quotes of a string. -/
inductive IsBody : List Char → Prop
  | empty : IsBody []
  | plain
      {c : Char} {body : List Char}
      (hc : Unescaped c)
      (hbody : IsBody body) :
      IsBody (c :: body)
  | escape
      {u body : List Char}
      (hu : EscapeForm u)
      (hbody : IsBody body) :
      IsBody ('\\' :: (u ++ body))

/-- The character that a code denotes, behind the mark of such an escape: a scalar value, or two
halves of a surrogate pair. -/
inductive CodeOf : Char → List Char → Prop
  | scalar
      {n : Nat} {ds : List Char}
      (h : HexQuad n ds)
      (hn : n < 0xD800 ∨ 0xDFFF < n) :
      CodeOf (Char.ofNat n) ds
  | pair
      {high low : Nat} {ds es : List Char}
      (h : HexQuad high ds)
      (hhigh : 0xD800 ≤ high ∧ high ≤ 0xDBFF)
      (h' : HexQuad low es)
      (hlow : 0xDC00 ≤ low ∧ low ≤ 0xDFFF) :
      CodeOf (Char.ofNat ((high - 0xD800) * 0x400 + (low - 0xDC00) + 0x10000))
        (ds ++ '\\' :: 'u' :: es)

/-- The character that an escape denotes, behind its backslash. -/
inductive EscapeOf : Char → List Char → Prop
  | letter
      {c d : Char}
      (h : Letter c d) :
      EscapeOf d [c]
  | code
      {c : Char} {u : List Char}
      (h : CodeOf c u) :
      EscapeOf c ('u' :: u)

/-- What stands between the quotes of a string, and the text that it denotes. -/
inductive Denotes : List Char → List Char → Prop
  | empty : Denotes [] []
  | plain
      {c : Char} {value body : List Char}
      (hc : Unescaped c)
      (hbody : Denotes value body) :
      Denotes (c :: value) (c :: body)
  | escape
      {c : Char} {value u body : List Char}
      (hu : EscapeOf c u)
      (hbody : Denotes value body) :
      Denotes (c :: value) ('\\' :: (u ++ body))

/-- A body between quotes. -/
def quoted (body : List Char) : List Char :=
  '"' :: (body ++ ['"'])

@[simp] theorem quoted_append (body rest : List Char) :
    quoted body ++ rest = '"' :: (body ++ '"' :: rest) := by
  simp [quoted]

/-- At least one digit, and nothing else. -/
def Digits (ds : List Char) : Prop :=
  ds ≠ [] ∧ ∀ d ∈ ds, isDigit d = true

/-- The digits in front of a point: zero, or digits that do not start with one. -/
inductive IsWhole : List Char → Prop
  | zero : IsWhole ['0']
  | digits
      {d : Char} {ds : List Char}
      (hne : d ≠ '0')
      (h : Digits (d :: ds)) :
      IsWhole (d :: ds)

inductive IsFraction : List Char → Prop
  | none : IsFraction []
  | point
      {ds : List Char}
      (h : Digits ds) :
      IsFraction ('.' :: ds)

inductive IsExponent : List Char → Prop
  | none : IsExponent []
  | mark
      {e : Char} {sign ds : List Char}
      (he : e = 'e' ∨ e = 'E')
      (hsign : sign = [] ∨ sign = ['+'] ∨ sign = ['-'])
      (h : Digits ds) :
      IsExponent (e :: (sign ++ ds))

/-- A number behind its sign. -/
inductive IsUnsigned : List Char → Prop
  | parts
      {whole fraction exponent : List Char}
      (hwhole : IsWhole whole)
      (hfraction : IsFraction fraction)
      (hexponent : IsExponent exponent) :
      IsUnsigned (whole ++ (fraction ++ exponent))

inductive IsNumber : List Char → Prop
  | positive
      {text : List Char}
      (h : IsUnsigned text) :
      IsNumber text
  | negative
      {text : List Char}
      (h : IsUnsigned text) :
      IsNumber ('-' :: text)

/-- What stands in front of an item: a gap, and a comma in it if the item is not the first. -/
inductive Lead : Bool → List Char → Prop
  | first
      {gap : List Char}
      (hgap : Gap gap) :
      Lead true gap
  | comma
      {gap gap' : List Char}
      (hgap : Gap gap)
      (hgap' : Gap gap') :
      Lead false (gap ++ ',' :: gap')

/-- Items up to the closing bracket, from the first one on or from a place behind an item. -/
inductive Items : Bool → List (List Char) → List Char → Prop
  | done
      {first : Bool} {gap : List Char}
      (hgap : Gap gap) :
      Items first [] gap
  | item
      {first : Bool} {lead item rest : List Char} {items : List (List Char)}
      (hlead : Lead first lead)
      (hrest : Items false items rest) :
      Items first (item :: items) (lead ++ (item ++ rest))

def Bracket.opening : Bracket → Char
  | list => '['
  | object => '\x7b'

/-- What stands between brackets. -/
def Bracket.around (b : Bracket) (inner : List Char) : List Char :=
  b.opening :: (inner ++ [b.close])

@[simp] theorem Bracket.around_append (b : Bracket) (inner rest : List Char) :
    b.around inner ++ rest = b.opening :: (inner ++ b.close :: rest) := by
  simp [around]

/-- A name and a value with a colon between them, and the gaps around it. -/
structure Member where
  body : List Char
  before : List Char
  behind : List Char
  value : List Char

namespace Member

def text (m : Member) : List Char :=
  quoted m.body ++ (m.before ++ ':' :: (m.behind ++ m.value))

/-- The gaps are gaps. -/
structure Spaced (m : Member) : Prop where
  before : Gap m.before
  behind : Gap m.behind

end Member

/-- The values without brackets. -/
inductive IsScalar : List Char → Prop
  | null : IsScalar "null".toList
  | true : IsScalar "true".toList
  | false : IsScalar "false".toList
  | number
      {text : List Char}
      (h : IsNumber text) :
      IsScalar text
  | string
      {body : List Char}
      (h : IsBody body) :
      IsScalar (quoted body)

/-- The texts that may stand between brackets: values in a list, members in an object. -/
inductive IsItem : Bracket → List Char → Prop
  | scalar
      {v : List Char}
      (h : IsScalar v) :
      IsItem .list v
  | bracket
      {b : Bracket} {items : List (List Char)} {inner : List Char}
      (h : Items Bool.true items inner)
      (hitems : ∀ item ∈ items, IsItem b item) :
      IsItem .list (b.around inner)
  | member
      {m : Member}
      (hbody : IsBody m.body)
      (hspaced : m.Spaced)
      (hvalue : IsItem .list m.value) :
      IsItem .object m.text

/-- The texts that are JSON values. -/
abbrev IsValue : List Char → Prop :=
  IsItem .list

section Tables

theorem gap_iff (w : List Char) :
    Gap w ↔ ∀ c ∈ w, Input.isBlank c = true := by
  simp only [Gap, Input.isBlank, Bool.or_eq_true, decide_eq_true_eq]
  refine forall₂_congr fun c _ => ?_
  tauto

theorem gap_nil : Gap [] :=
  List.forall_mem_nil _

theorem gap_of_all
    {w : List Char}
    (h : w.all Input.isBlank = true) :
    Gap w :=
  (gap_iff w).mpr (List.all_eq_true.mp h)

theorem letter_iff (c d : Char) :
    Letter c d ↔ shortEscape? c = some d := by
  constructor
  · intro h
    cases h <;> rfl
  · intro h
    unfold shortEscape? at h
    split at h <;> cases h <;> constructor

theorem Letter.ne_code
    {c d : Char}
    (h : Letter c d) :
    c ≠ 'u' := by
  cases h <;> decide

theorem toNat_lt_of_hexDigit?
    {n : Nat} {c : Char}
    (h : hexDigit? c = some n) :
    c.toNat < 128 := by
  simp only [hexDigit?, Bool.and_eq_true, decide_eq_true_eq, Char.le_def, UInt32.le_iff_toNat_le]
    at h
  have hdigit : ('9' : Char).val.toNat = 57 := rfl
  have hlower : ('f' : Char).val.toNat = 102 := rfl
  have hupper : ('F' : Char).val.toNat = 70 := rfl
  have hval : c.toNat = c.val.toNat := rfl
  split_ifs at h <;> omega

theorem hexDigit_iff (n : Nat) (c : Char) :
    HexDigit n c ↔ hexDigit? c = some n := by
  constructor
  · have htables : ∀ n < 16, "0123456789abcdef".toList[n]?.bind hexDigit? = some n ∧
        "0123456789ABCDEF".toList[n]?.bind hexDigit? = some n := by
      decide
    rintro (h | h) <;> obtain ⟨hlt, -⟩ := List.getElem?_eq_some_iff.mp h
    · simpa only [h, Option.bind_some] using (htables n hlt).1
    · simpa only [h, Option.bind_some] using (htables n hlt).2
  · have hcodes : ∀ k < 128, ∀ n ∈ hexDigit? (Char.ofNat k),
        "0123456789abcdef".toList[n]? = some (Char.ofNat k) ∨
        "0123456789ABCDEF".toList[n]? = some (Char.ofNat k) := by
      decide
    intro h
    have hcode := hcodes c.toNat (toNat_lt_of_hexDigit? h) n
    rw [Char.ofNat_toNat] at hcode
    exact hcode h

end Tables

/-- How an unsigned number starts. -/
theorem IsUnsigned.exists_eq_cons
    {text : List Char}
    (h : IsUnsigned text) :
    ∃ d ds, text = d :: ds ∧ isDigit d = true := by
  obtain ⟨hwhole, -, -⟩ := h
  cases hwhole with
  | zero => exact ⟨_, _, rfl, by decide⟩
  | digits _ hds => exact ⟨_, _, rfl, hds.2 _ List.mem_cons_self⟩

theorem forall_of_forall₂
    {α β : Type} {R : α → β → Prop} {P : β → Prop} {as : List α} {bs : List β}
    (h : List.Forall₂ R as bs)
    (hP : ∀ a b, R a b → P b) :
    ∀ b ∈ bs, P b := by
  induction h with
  | nil => nofun
  | cons hab _ ih => exact List.forall_mem_cons.mpr ⟨hP _ _ hab, ih⟩

/-- A body that denotes something has the form of a body. -/
theorem Denotes.isBody
    {value body : List Char}
    (h : Denotes value body) :
    IsBody body := by
  induction h with
  | empty => exact .empty
  | plain hc _ ih => exact .plain hc ih
  | escape hu _ ih =>
      cases hu with
      | letter h => exact .escape (.letter h) ih
      | code h =>
          cases h with
          | scalar h _ => exact .escape (.code h) ih
          | pair h _ h' _ =>
              rw [List.cons_append, List.append_assoc]
              exact .escape (.code h) (.escape (.code h') ih)

end Json
end TokenStream
