import TokenStream.Alphabet
import TokenStream.Binary64.Rounding

/-!
# Decimal numerals

A numeral is a run of digits, in which one point may stand after the first digit.

**Algorithm** the digits without the point are read as one natural number, which is divided by
a power of ten for the digits behind the point; the number is the one nearest to that fraction.

**Results** the numeral that is read is a front part of the text.
-/

namespace TokenStream
namespace Decimal

def digitValue (c : Char) : Nat :=
  c.toNat - '0'.toNat

/-- The natural number that a run of digits denotes. -/
def digitsValue (cs : List Char) : Nat :=
  cs.foldl (fun value c => 10 * value + digitValue c) 0

@[simp] theorem digitsValue_nil : digitsValue [] = 0 := rfl

theorem digitsValue_concat (cs : List Char) (c : Char) :
    digitsValue (cs ++ [c]) = 10 * digitsValue cs + digitValue c := by
  simp [digitsValue]

/-- A numeral: the digits before the point and, if there is a point, those behind it. -/
structure Numeral where
  whole : List Char
  /-- The digits behind the point, if a point was written. -/
  fraction : Option (List Char)
deriving DecidableEq, Repr

namespace Numeral

def spelling (n : Numeral) : List Char :=
  match n.fraction with
  | none => n.whole
  | some digits => n.whole ++ '.' :: digits

/-- The longest numeral in front of a text. -/
def read (cs : List Char) : Numeral :=
  let whole := cs.takeWhile isDigit
  match cs.dropWhile isDigit with
  | '.' :: rest => ⟨whole, some (rest.takeWhile isDigit)⟩
  | _ => ⟨whole, none⟩

/-- The fraction that a numeral denotes, as numerator and denominator. -/
def fractionOf (n : Numeral) : Nat × Nat :=
  let behind := n.fraction.getD []
  (digitsValue (n.whole ++ behind), Nat.pow 10 behind.length)

def value (n : Numeral) : Binary64 :=
  Binary64.ofFraction false n.fractionOf.1 n.fractionOf.2

/-- A numeral in front of a text is a front part of it. -/
theorem exists_eq_spelling_append (cs : List Char) :
    ∃ rest, cs = (read cs).spelling ++ rest := by
  have hsplit : cs.takeWhile isDigit ++ cs.dropWhile isDigit = cs :=
    List.takeWhile_append_dropWhile
  unfold read
  split
  · next rest hrest =>
      have hback : rest.takeWhile isDigit ++ rest.dropWhile isDigit = rest :=
        List.takeWhile_append_dropWhile
      refine ⟨rest.dropWhile isDigit, ?_⟩
      rw [hrest] at hsplit
      simp only [spelling, List.append_assoc, List.cons_append, hback]
      exact hsplit.symm
  · exact ⟨cs.dropWhile isDigit, hsplit.symm⟩

end Numeral
end Decimal
end TokenStream
