import TokenStream.Binary64.Basic

/-!
# Rounding to the nearest number

The number nearest to an exact fraction, a tie going to the even neighbour.

**Input** a numerator and a positive denominator.

**Algorithm** the step of the number grid around the fraction is a power of two, found from
the sizes of the two integers and never below the smallest step; the fraction is then rounded
to a whole multiple of it, a half to the even one. Because the multiple and the exponent field
lie side by side in the pattern, a multiple that reaches the next power of two carries into the
exponent by itself.
-/

namespace TokenStream
namespace Binary64

/-- The whole number nearest to a fraction, a tie going to the even one. -/
def roundQuotient (num den : Nat) : Nat :=
  let quotient := num / den
  let twice := 2 * (num % den)
  if twice < den then quotient
  else if den < twice then quotient + 1
  else quotient + quotient % 2

def scale (num den : Nat) (shift : Int) : Nat × Nat :=
  match shift with
  | .ofNat n => (num * Nat.pow 2 n, den)
  | .negSucc n => (num, den * Nat.pow 2 (n + 1))

/-- The exponent `k` with `2 ^ k ≤ num / den < 2 ^ (k + 1)`, for positive integers. -/
def floorLog2 (num den : Nat) : Int :=
  let guess : Int := (Nat.log2 num : Int) - Nat.log2 den
  let scaled := scale num den (-guess)
  if scaled.2 ≤ scaled.1 then guess else guess - 1

/-- The pattern of the number nearest to a fraction, without a sign. -/
def roundPattern (num den : Nat) : Nat :=
  if num = 0 then 0 else
    let step := max (floorLog2 num den - 52) minExponent
    let scaled := scale num den (-step)
    let multiple := roundQuotient scaled.1 scaled.2
    let pattern := (step - minExponent).toNat * fractionRange + multiple
    min pattern infinityPattern

/-- The number nearest to a fraction of natural numbers, with a sign. -/
def ofFraction (negative : Bool) (num den : Nat) : Binary64 :=
  ofPattern negative (roundPattern num den)

def ofNat (n : Nat) : Binary64 :=
  ofFraction false n 1

/-- The fraction that a kind stands for, without its sign; infinities and NaNs have none. -/
def Kind.fraction? : Kind → Option (Nat × Nat)
  | .finite _ mantissa exponent => some (scale mantissa 1 exponent)
  | _ => none

/-- The nearest number to the product with a fraction; a number that is not finite stays. -/
def timesFraction (x : Binary64) (num den : Nat) : Binary64 :=
  match x.kind.fraction? with
  | some (n, d) => ofFraction x.negative (n * num) (d * den)
  | none => x

def isInfinite (x : Binary64) : Bool :=
  x.magnitude == infinityPattern

/-- The number with its sign bit turned over. -/
def negate (x : Binary64) : Binary64 :=
  ofPattern (!x.negative) x.magnitude

end Binary64
end TokenStream
