/-!
# Binary64 numbers

A number is its 64-bit pattern: a sign bit, eleven exponent bits and fifty-two fraction bits.

**View** `kind` reads the pattern as an infinity, a NaN, or a sign with `m · 2 ^ e` for a
natural number `m` and an integer `e`.

**Order of patterns** with a clear sign bit a larger pattern is a larger number, so that
rounding (in the module beside this one) can name its result by the pattern alone.
-/

namespace TokenStream

/-- A number of the IEEE 754 format binary64, told apart by its bits. -/
structure Binary64 where
  /-- Sign, exponent and fraction, from the highest bit down. -/
  bits : UInt64
deriving DecidableEq, Repr

namespace Binary64

inductive Kind where
  | nan
  | infinite (negative : Bool)
  /-- The number `± mantissa · 2 ^ exponent`. -/
  | finite (negative : Bool) (mantissa : Nat) (exponent : Int)
deriving DecidableEq, Repr

/-- One more than the largest fraction. -/
def fractionRange : Nat := Nat.pow 2 52

/-- The exponent of the smallest step between two numbers. -/
def minExponent : Int := -1074

/-- The pattern of infinity: all exponent bits, no fraction. -/
def infinityPattern : Nat := 2047 * fractionRange

/-- The pattern of the sign bit alone. -/
def signPattern : Nat := Nat.pow 2 63

def negative (x : Binary64) : Bool :=
  signPattern ≤ x.bits.toNat

def magnitude (x : Binary64) : Nat :=
  x.bits.toNat % signPattern

/-- The number with the given sign and the given pattern of the other bits. -/
def ofPattern (negative : Bool) (pattern : Nat) : Binary64 :=
  ⟨UInt64.ofNat (pattern + if negative then signPattern else 0)⟩

def infinity : Binary64 := ofPattern false infinityPattern

/-- What the pattern stands for. An empty exponent field stands for the smallest exponent
without the hidden leading bit. -/
def kind (x : Binary64) : Kind :=
  let field := x.magnitude / fractionRange
  let fraction := x.magnitude % fractionRange
  if field = 2047 then
    if fraction = 0 then .infinite x.negative else .nan
  else if field = 0 then
    .finite x.negative fraction minExponent
  else
    .finite x.negative (fractionRange + fraction) (minExponent + (field - 1 : Nat))

def isNaN (x : Binary64) : Bool :=
  infinityPattern < x.magnitude

/-- Numeric equality: a NaN equals nothing, and the two zeros are equal. -/
def numericEq (x y : Binary64) : Bool :=
  !x.isNaN && !y.isNaN && (x.bits == y.bits || (x.magnitude == 0 && y.magnitude == 0))

end Binary64

end TokenStream
