import TokenStream.Binary64.Rounding

/-!
# Shortest decimals

The decimal with the fewest digits that still rounds to a given number.

**Input** a mantissa and an exponent of two, and a rule for ties.

**Algorithm** for one digit, two digits and so on up to seventeen, the two neighbours of the
number on that decimal grid are rounded back; the first grid with a neighbour that gives the
number wins. If both neighbours do, the nearer is taken, and if both are equally near, the rule
for ties decides. Should no grid win, which seventeen digits rule out, the number is written with
all its digits: a power of two is always a decimal.
-/

namespace TokenStream
namespace Decimal

/-- Which of two equally near decimals is taken. -/
inductive Tie where
  | up
  | even
deriving DecidableEq, Repr

/-- The lower neighbour is taken, where `twice / den` is twice its distance to the number. -/
def Tie.takesBelow (tie : Tie) (twice den coefficient : Nat) : Bool :=
  match tie with
  | up => twice < den
  | even => twice < den || (twice = den && coefficient % 2 = 0)

/-- The decimal `coefficient · 10 ^ exponent`. -/
structure Scaled where
  coefficient : Nat
  exponent : Int
deriving DecidableEq, Repr

def powerOfTen (k : Int) : Nat × Nat :=
  match k with
  | .ofNat n => (Nat.pow 10 n, 1)
  | .negSucc n => (1, Nat.pow 10 (n + 1))

def Scaled.fraction (d : Scaled) : Nat × Nat :=
  let power := powerOfTen d.exponent
  (d.coefficient * power.1, power.2)

def Scaled.pattern (d : Scaled) : Nat :=
  Binary64.roundPattern d.fraction.1 d.fraction.2

/-- All digits of `mantissa · 2 ^ exponent`. -/
def exactly (mantissa : Nat) (exponent : Int) : Scaled :=
  match exponent with
  | .ofNat n => ⟨mantissa * Nat.pow 2 n, 0⟩
  | .negSucc n => ⟨mantissa * Nat.pow 5 (n + 1), .negSucc n⟩

/-- The exponent `k` with `10 ^ k ≤ num / den < 10 ^ (k + 1)`, for positive integers. -/
def floorLog10 (num den : Nat) : Int :=
  let atLeast (k : Int) : Bool :=
    let power := powerOfTen k
    power.1 * den ≤ num * power.2
  let guess := Binary64.floorLog2 num den * 30103 / 100000
  if atLeast (guess + 1) then guess + 1
  else if atLeast guess then guess
  else guess - 1

/-- The neighbour of a fraction on one decimal grid that rounds to the same number, if one of the
two does. -/
def neighbour? (tie : Tie) (num den : Nat) (k : Int) : Option Scaled :=
  let target := Binary64.roundPattern num den
  let power := powerOfTen k
  let scaledNum := num * power.2
  let scaledDen := den * power.1
  let below : Scaled := ⟨scaledNum / scaledDen, k⟩
  let above : Scaled := ⟨scaledNum / scaledDen + 1, k⟩
  let twice := 2 * (scaledNum % scaledDen)
  match decide (below.pattern = target), decide (above.pattern = target) with
  | false, false => none
  | true, false => some below
  | false, true => some above
  | true, true =>
    if tie.takesBelow twice scaledDen below.coefficient then some below else some above

/-- The coefficient without the zeros at its end, and their number. -/
def stripZeros (n : Nat) : Nat × Nat :=
  if _h : n ≠ 0 ∧ n % 10 = 0 then
    let (m, zeros) := stripZeros (n / 10)
    (m, zeros + 1)
  else (n, 0)
termination_by n
decreasing_by omega

/-- The same decimal without zeros at the end of its coefficient. -/
def Scaled.normalize (d : Scaled) : Scaled :=
  let (coefficient, zeros) := stripZeros d.coefficient
  ⟨coefficient, d.exponent + zeros⟩

/-- The shortest decimal that rounds to `mantissa · 2 ^ exponent`; zero has no digits. -/
def shortest (tie : Tie) (mantissa : Nat) (exponent : Int) : Scaled :=
  if mantissa = 0 then ⟨0, 0⟩ else
    let fraction := Binary64.scale mantissa 1 exponent
    let top := floorLog10 fraction.1 fraction.2
    let grids := (List.range 17).map fun (n : Nat) => top - n
    let found := grids.findSome? (neighbour? tie fraction.1 fraction.2)
    (found.getD (exactly mantissa exponent)).normalize

end Decimal
end TokenStream
