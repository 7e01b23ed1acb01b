import TokenStream.Decimal.Shortest

/-!
# Layouts of numbers

How the shortest digits of a number are written out.

**Input** a layout: which decimal exponents are written in positional form, whether a whole
number gets a point and a zero, whether a positive exponent gets a plus sign, which of two
equally short and near decimals is taken, and the texts of what is not a finite number.

**Layouts** `plain` never uses an exponent; `inspected` and `json` use one outside a window.
-/

namespace TokenStream
namespace Decimal

/-- The choices that fix the text of a number. -/
structure Layout where
  /-- Which of two equally near shortest decimals is taken. -/
  tie : Tie
  /-- The decimal exponents of the first digit that are written without an exponent. -/
  positional : Int → Bool
  /-- A whole number in positional form ends in a point and a zero. -/
  pointZero : Bool
  /-- A positive exponent has a plus sign. -/
  plusSign : Bool
  /-- The texts of the infinities, by sign. -/
  infinity : Bool → List Char
  nan : List Char

def natText (n : Nat) : List Char :=
  Nat.toDigits 10 n

/-- The decimal digits of an integer, with a minus sign, or with a plus sign if asked for. -/
def intText (plusSign : Bool) (n : Int) : List Char :=
  match n with
  | .ofNat m => if plusSign then '+' :: natText m else natText m
  | .negSucc m => '-' :: natText (m + 1)

/-- The text with a point: zeros fill the places between the digits and the point. -/
def positionalText (pointZero : Bool) (digits : List Char) (exponent : Int) : List Char :=
  if 0 ≤ exponent then
    digits ++ List.replicate exponent.toNat '0' ++ if pointZero then ['.', '0'] else []
  else
    let behind := exponent.natAbs
    if behind < digits.length then
      digits.take (digits.length - behind) ++ '.' :: digits.drop (digits.length - behind)
    else
      '0' :: '.' :: List.replicate (behind - digits.length) '0' ++ digits

/-- The text with an exponent: one digit, a point if more follow, and the power of ten. -/
def exponentText (plusSign : Bool) (digits : List Char) (exponent : Int) : List Char :=
  let mantissa := match digits with
    | first :: second :: rest => first :: '.' :: second :: rest
    | short => short
  mantissa ++ 'e' :: intText plusSign exponent

def Layout.digitsText (layout : Layout) (d : Scaled) : List Char :=
  let digits := natText d.coefficient
  let leading := d.exponent + (digits.length : Int) - 1
  if d.coefficient = 0 || layout.positional leading then
    positionalText layout.pointZero digits d.exponent
  else
    exponentText layout.plusSign digits leading

def Layout.text (layout : Layout) (x : Binary64) : List Char :=
  match x.kind with
  | .nan => layout.nan
  | .infinite negative => layout.infinity negative
  | .finite negative mantissa exponent =>
    let text := layout.digitsText (shortest layout.tie mantissa exponent)
    if negative then '-' :: text else text

/-- Infinities as a sign and a word. -/
def infinityWord (negative : Bool) : List Char :=
  if negative then "-inf".toList else "inf".toList

/-- Numbers as they are written in a source text: never with an exponent. -/
def Layout.plain : Layout where
  tie := .up
  positional := fun _ => true
  pointZero := false
  plusSign := false
  infinity := infinityWord
  nan := "NaN".toList

/-- Numbers inside the descriptions of tokens in events. -/
def Layout.inspected : Layout where
  tie := .up
  positional := fun leading => -4 ≤ leading && leading < 16
  pointZero := true
  plusSign := false
  infinity := infinityWord
  nan := "NaN".toList

/-- Numbers in JSON, which has no text for infinities and NaNs. -/
def Layout.json : Layout where
  tie := .even
  positional := fun leading => -5 ≤ leading && leading < 16
  pointZero := true
  plusSign := true
  infinity := fun _ => "null".toList
  nan := "null".toList

end Decimal
end TokenStream
