import TokenStream.Decimal.Numeral
import TokenStream.Json.Fault

/-!
# Numbers in a JSON document

**Input** the text behind the sign of a number, if it has one.

**Readers** one passes over a number whose value does not matter. The other reads a number for
its value: an integer of sixty-four bits, or else a binary64 number.

**Algorithm** a binary64 number is put together from as many leading digits as fit into
sixty-four bits and a power of ten, by which they are multiplied or divided with one rounding
for the digits, one for the power and one for the result. A result that is too large is a
complaint, one that is too small is zero.

**Results** passing over a number does not lengthen the text ahead.
-/

namespace TokenStream
namespace Json

inductive Number where
  | integer (value : Int)
  | floating (value : Binary64)
deriving DecidableEq, Repr

def maxInteger : Nat := Nat.pow 2 64 - 1

/-- The largest exponent that is read exactly. -/
def maxExponent : Nat := Nat.pow 2 31 - 1

/-- The largest power of ten that is a finite number. -/
def maxPower : Nat := 308

/-- Takes digits into a number as long as it stays within a limit. Gives the number and how
many digits were taken. -/
def absorb (limit : Nat) (value : Nat) : List Char → Nat × Nat
  | [] => (value, 0)
  | c :: cs =>
    let next := 10 * value + Decimal.digitValue c
    if limit < next then (value, 0)
    else
      let (last, count) := absorb limit next cs
      (last, count + 1)

/-- The fraction that the number nearest to a power of ten stands for. -/
def powerFraction (k : Nat) : Nat × Nat :=
  ((Binary64.ofNat (Nat.pow 10 k)).kind.fraction?).getD (1, 1)

/-- Division by a power of ten, in steps of the largest power that is a number. -/
def divideByPower (x : Binary64) (k : Nat) : Binary64 :=
  if k ≤ maxPower then
    let power := powerFraction k
    x.timesFraction power.2 power.1
  else if x.magnitude = 0 then x
  else
    let power := powerFraction maxPower
    divideByPower (x.timesFraction power.2 power.1) (k - maxPower)
termination_by k
decreasing_by
  unfold maxPower at *
  omega

/-- The number `significand · 10 ^ exponent`, unless it is too large. -/
def assemble (significand : Nat) (exponent : Int) : Option Binary64 :=
  let x := Binary64.ofNat significand
  match exponent with
  | .ofNat k =>
    if k ≤ maxPower then
      let power := powerFraction k
      let product := x.timesFraction power.1 power.2
      if product.isInfinite then none else some product
    else if significand = 0 then some x
    else none
  | .negSucc k => some (divideByPower x (k + 1))

def withSign (negative : Bool) (x : Binary64) : Binary64 :=
  if negative then x.negate else x

namespace Input

def digits (i : Input) : List Char := i.rest.takeWhile isDigit

def skipDigits (i : Input) : Input := i.skipWhile isDigit

/-- The mark of an exponent is ahead. -/
def atExponent (i : Input) : Bool := i.peek = some 'e' || i.peek = some 'E'

/-- The input behind a sign, if one is ahead. -/
def skipSign (i : Input) : Input :=
  if i.peek = some '+' || i.peek = some '-' then i.advance else i

/-- A finished binary64 number. -/
def finishNumber (i : Input) (negative : Bool) (significand : Nat) (exponent : Int) :
    Read Number :=
  match assemble significand exponent with
  | some x => .ok (.floating (withSign negative x), i)
  | none => .error (i.fault .numberOutOfRange)

/-- The exponent of a number, behind its mark. -/
def readExponent (i : Input) (negative : Bool) (significand : Nat) (start : Int) :
    Read Number :=
  let down := i.peek = some '-'
  let j := i.skipSign
  match j.peek with
  | none => .error (j.fault (.ended .value))
  | some c =>
    if !isDigit c then .error (j.faultAhead .invalidNumber)
    else
      let (exponent, count) := absorb maxExponent 0 j.digits
      if count < j.digits.length then
        if significand ≠ 0 && !down then .error ((j.skip (count + 1)).fault .numberOutOfRange)
        else .ok (.floating (withSign negative (Binary64.ofNat 0)), j.skipDigits)
      else
        let exponent := if down then start - exponent else start + exponent
        j.skipDigits.finishNumber negative significand exponent

/-- The rest of a number behind all its digits. -/
def readScale (i : Input) (negative : Bool) (significand : Nat) (exponent : Int) :
    Read Number :=
  if i.atExponent then i.advance.readExponent negative significand exponent
  else i.finishNumber negative significand exponent

/-- The digits of a number behind its point. -/
def readFraction (i : Input) (negative : Bool) (significand : Nat) (exponent : Int) :
    Read Number :=
  if i.digits.isEmpty then
    .error (i.faultAhead (if i.rest.isEmpty then .ended .value else .invalidNumber))
  else
    let (significand, count) := absorb maxInteger significand i.digits
    i.skipDigits.readScale negative significand (exponent - count)

/-- The number behind its whole digits, of which `dropped` did not fit into its integer. -/
def readAfterWhole (i : Input) (negative : Bool) (significand dropped : Nat) : Read Number :=
  if i.peek = some '.' then i.advance.readFraction negative significand dropped
  else if i.atExponent then i.advance.readExponent negative significand dropped
  else if dropped ≠ 0 then i.finishNumber negative significand dropped
  else if !negative then .ok (.integer significand, i)
  else if significand = 0 || Nat.pow 2 63 < significand then
    .ok (.floating (Binary64.ofNat significand).negate, i)
  else .ok (.integer (-significand), i)

/-- A number for its value, behind its sign. -/
def readNumber (i : Input) (negative : Bool) : Read Number :=
  match i.peek with
  | none => .error (i.fault (.ended .value))
  | some c =>
    if c = '0' then
      let j := i.advance
      if j.digits.isEmpty then j.readAfterWhole negative 0 0
      else .error (j.faultAhead .invalidNumber)
    else if isDigit c then
      let (significand, count) := absorb maxInteger 0 i.digits
      i.skipDigits.readAfterWhole negative significand (i.digits.length - count)
    else .error (i.faultAhead .invalidNumber)

/-- Passes over an exponent, if one is ahead. -/
def skipExponent (i : Input) : Except Fault Input :=
  if i.atExponent then
    let j := i.advance.skipSign
    if j.digits.isEmpty then .error (j.faultAhead .invalidNumber) else .ok j.skipDigits
  else .ok i

/-- Passes over a point and digits, if a point is ahead, and over an exponent. -/
def skipFraction (i : Input) : Except Fault Input :=
  if i.peek = some '.' then
    let j := i.advance
    if j.digits.isEmpty then .error (j.faultAhead .invalidNumber) else j.skipDigits.skipExponent
  else i.skipExponent

/-- Passes over a number, behind its sign. -/
def skipNumber (i : Input) : Except Fault Input :=
  match i.peek with
  | none => .error (i.fault .invalidNumber)
  | some c =>
    if c = '0' then
      let j := i.advance
      if j.digits.isEmpty then j.skipFraction else .error (j.faultAhead .invalidNumber)
    else if isDigit c then i.skipDigits.skipFraction
    else .error (i.faultAhead .invalidNumber)

theorem length_skipSign_rest_le (i : Input) : i.skipSign.rest.length ≤ i.rest.length := by
  unfold skipSign
  split
  · exact length_advance_rest_le i
  · exact Nat.le_refl _

theorem length_skipDigits_rest_le (i : Input) :
    i.skipDigits.rest.length ≤ i.rest.length :=
  length_skipWhile_rest_le i isDigit

theorem length_skipExponent_rest_le {i j : Input} (h : i.skipExponent = .ok j) :
    j.rest.length ≤ i.rest.length := by
  have hadvance := length_advance_rest_le i
  have hsign := length_skipSign_rest_le i.advance
  have hdigits := length_skipDigits_rest_le i.advance.skipSign
  simp only [skipExponent] at h
  split at h
  · split at h
    · cases h
    · cases h
      omega
  · cases h
    exact Nat.le_refl _

theorem length_skipFraction_rest_le {i j : Input} (h : i.skipFraction = .ok j) :
    j.rest.length ≤ i.rest.length := by
  have hadvance := length_advance_rest_le i
  have hdigits := length_skipDigits_rest_le i.advance
  simp only [skipFraction] at h
  split at h
  · split at h
    · cases h
    · have hexponent := length_skipExponent_rest_le h
      omega
  · exact length_skipExponent_rest_le h

theorem length_skipNumber_rest_le {i j : Input} (h : i.skipNumber = .ok j) :
    j.rest.length ≤ i.rest.length := by
  have hadvance := length_advance_rest_le i
  have hdigits := length_skipDigits_rest_le i
  simp only [skipNumber] at h
  split at h
  · cases h
  · split at h
    · split at h
      · have hfraction := length_skipFraction_rest_le h
        omega
      · cases h
    · split at h
      · have hfraction := length_skipFraction_rest_le h
        omega
      · cases h

end Input
end Json
end TokenStream
