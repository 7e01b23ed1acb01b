import TokenStream.Json.Numbers
import TokenStream.Json.Strings

/-!
# Passing over a JSON value

A value whose content does not matter, of any depth.

**State** the brackets that are open, innermost first, and what is due: a value, or what may
follow a value or an opening bracket.

**Algorithm** a scalar is passed over at once. An opening bracket is put on the stack; behind it
the closing bracket may come, or a first member. Behind a value comes a comma and the next
member, or the bracket that closes the innermost open one. A member of an object is a string, a
colon and a value.

**Results** each step makes the text ahead shorter, or leaves it and turns to a value.
-/

namespace TokenStream
namespace Json

inductive Bracket where
  | list
  | object
deriving DecidableEq, Repr

def Bracket.close : Bracket → Char
  | list => ']'
  | object => '\x7d'

/-- What was being read when the text ended inside a bracket. -/
def Bracket.unfinished : Bracket → Unfinished
  | list => .list
  | object => .object

/-- The complaint about what follows a member. -/
def Bracket.expected : Bracket → Cause
  | list => .expectedCommaOrBracket
  | object => .expectedCommaOrBrace

inductive Due where
  | value
  /-- What may follow; right behind an opening bracket it cannot be a comma. -/
  | next (opened : Bool)
deriving DecidableEq, Repr

/-- The part of the measure that tells a value from what follows it. -/
def Due.weight : Due → Nat
  | value => 0
  | next _ => 1

namespace Input

/-- The rest of a word, of which the first letter has been read. -/
def skipWord (i : Input) : List Char → Except Fault Input
  | [] => .ok i
  | c :: cs =>
    match i.peek with
    | none => .error (i.fault (.ended .value))
    | some d => if d = c then i.advance.skipWord cs else .error (i.faultAhead .misspeltWord)

/-- Passes over a colon behind blanks. -/
def skipColon (i : Input) : Except Fault Input :=
  let j := i.skipBlanks
  match j.peek with
  | none => .error (j.fault (.ended .object))
  | some c => if c = ':' then .ok j.advance else .error (j.faultAhead .expectedColon)

/-- Passes over the name of a member and the colon behind it. -/
def skipKey (i : Input) : Except Fault Input :=
  let j := i.skipBlanks
  match j.peek with
  | none => .error (j.fault (.ended .object))
  | some c =>
    if c = '"' then
      match j.advance.skipString with
      | .error e => .error e
      | .ok k => k.skipColon
    else .error (j.faultAhead .keyNotString)

/-- Passes over what stands in front of the value of a member. -/
def skipMemberStart (i : Input) : Bracket → Except Fault Input
  | .list => .ok i
  | .object => i.skipKey

/-- Passes over a value that is neither a list nor an object and starts with `c`. -/
def skipScalar (i : Input) (c : Char) : Except Fault Input :=
  if c = '"' then i.advance.skipString
  else if c = '-' then i.advance.skipNumber
  else if isDigit c then i.skipNumber
  else if c = 'n' then i.advance.skipWord ['u', 'l', 'l']
  else if c = 't' then i.advance.skipWord ['r', 'u', 'e']
  else if c = 'f' then i.advance.skipWord ['a', 'l', 's', 'e']
  else .error (i.faultAhead .expectedValue)

theorem length_skipWord_rest_le {i j : Input} {cs : List Char} (h : i.skipWord cs = .ok j) :
    j.rest.length ≤ i.rest.length := by
  induction cs generalizing i with
  | nil =>
      cases h
      exact Nat.le_refl _
  | cons c cs ih =>
      have hadvance := length_advance_rest_le i
      simp only [skipWord] at h
      split at h
      · cases h
      · split at h
        · have hrest := ih h
          omega
        · cases h

theorem length_skipColon_rest_le {i j : Input} (h : i.skipColon = .ok j) :
    j.rest.length ≤ i.rest.length := by
  have hblanks := length_skipBlanks_rest_le i
  have hadvance := length_advance_rest_le i.skipBlanks
  simp only [skipColon] at h
  split at h
  · cases h
  · split at h
    · cases h
      omega
    · cases h

theorem length_skipKey_rest_le {i j : Input} (h : i.skipKey = .ok j) :
    j.rest.length ≤ i.rest.length := by
  have hblanks := length_skipBlanks_rest_le i
  have hadvance := length_advance_rest_le i.skipBlanks
  simp only [skipKey] at h
  split at h
  · cases h
  · split at h
    · split at h
      · cases h
      · next k hk =>
          have hstring := length_skipString_rest_le hk
          have hcolon := length_skipColon_rest_le h
          omega
    · cases h

theorem length_skipMemberStart_rest_le {i j : Input} {b : Bracket}
    (h : i.skipMemberStart b = .ok j) : j.rest.length ≤ i.rest.length := by
  cases b with
  | list =>
      cases h
      exact Nat.le_refl _
  | object => exact length_skipKey_rest_le h

theorem length_skipNumber_rest_lt {i j : Input} {c : Char} (hpeek : i.peek = some c)
    (h : i.skipNumber = .ok j) : j.rest.length < i.rest.length := by
  have hadvance := length_advance_rest_lt i hpeek
  simp only [skipNumber, hpeek] at h
  split at h
  · split at h
    · have hfraction := length_skipFraction_rest_le h
      omega
    · cases h
  · split at h
    · next hdigit =>
        have hfraction := length_skipFraction_rest_le h
        have hdigits : i.skipDigits.rest.length < i.rest.length := by
          cases hrest : i.rest with
          | nil => simp [peek, hrest] at hpeek
          | cons a r =>
              have ha : a = c := by simpa [peek, hrest] using hpeek
              subst ha
              simp only [skipDigits, skipWhile, skip, hrest, List.takeWhile_cons, hdigit,
                if_true, List.length_cons, List.drop_succ_cons, List.length_drop]
              omega
        omega
    · cases h

theorem length_skipScalar_rest_lt {i j : Input} {c : Char} (hpeek : i.peek = some c)
    (h : i.skipScalar c = .ok j) : j.rest.length < i.rest.length := by
  have hadvance := length_advance_rest_lt i hpeek
  simp only [skipScalar] at h
  split at h
  · have hle := length_skipString_rest_le h
    omega
  · split at h
    · have hle := length_skipNumber_rest_le h
      omega
    · split at h
      · exact length_skipNumber_rest_lt hpeek h
      · split at h
        · have hle := length_skipWord_rest_le h
          omega
        · split at h
          · have hle := length_skipWord_rest_le h
            omega
          · split at h
            · have hle := length_skipWord_rest_le h
              omega
            · cases h

/-- Passes over what is due inside the open brackets, up to the end of the outermost value. -/
def skipDue (i : Input) (due : Due) (stack : List Bracket) : Except Fault Input :=
  match due, stack with
  | .value, stack =>
    let j := i.skipBlanks
    match _hpeek : j.peek with
    | none => .error (j.fault (.ended .value))
    | some c =>
      if c = '[' then j.advance.skipDue (.next true) (.list :: stack)
      else if c = '\x7b' then j.advance.skipDue (.next true) (.object :: stack)
      else
        match _hscalar : j.skipScalar c with
        | .error e => .error e
        | .ok k => k.skipDue (.next false) stack
  | .next _, [] => .ok i
  | .next opened, bracket :: outer =>
    let j := i.skipBlanks
    match _hpeek : j.peek with
    | none => .error (j.fault (.ended bracket.unfinished))
    | some c =>
      if c = bracket.close then j.advance.skipDue (.next false) outer
      else if c = ',' && !opened then
        match _hstart : j.advance.skipMemberStart bracket with
        | .error e => .error e
        | .ok k => k.skipDue .value (bracket :: outer)
      else if opened then
        match _hstart : j.skipMemberStart bracket with
        | .error e => .error e
        | .ok k => k.skipDue .value (bracket :: outer)
      else .error (j.faultAhead bracket.expected)
termination_by 2 * i.rest.length + due.weight
decreasing_by
  all_goals
    have hblanks := length_skipBlanks_rest_le i
    have hadvance := length_advance_rest_lt i.skipBlanks _hpeek
    simp only [Due.weight]
  · omega
  · omega
  · have hscalar := length_skipScalar_rest_lt (i := i.skipBlanks) _hpeek _hscalar
    omega
  · omega
  · have hstart := length_skipMemberStart_rest_le (i := i.skipBlanks.advance) _hstart
    omega
  · have hstart := length_skipMemberStart_rest_le (i := i.skipBlanks) _hstart
    omega

theorem length_skipDue_rest_le {i j : Input} {due : Due} {stack : List Bracket}
    (h : i.skipDue due stack = .ok j) : j.rest.length ≤ i.rest.length := by
  fun_induction skipDue i due stack with
  | case1 => cases h
  | case2 i _ k _ ih =>
      have hrest := ih h
      have hblanks : k.rest.length ≤ i.rest.length := length_skipBlanks_rest_le i
      have hadvance := length_advance_rest_le k
      omega
  | case3 i _ k _ _ ih =>
      have hrest := ih h
      have hblanks : k.rest.length ≤ i.rest.length := length_skipBlanks_rest_le i
      have hadvance := length_advance_rest_le k
      omega
  | case4 => cases h
  | case5 i _ k c hpeek _ _ l hscalar ih =>
      have hrest := ih h
      have hblanks : k.rest.length ≤ i.rest.length := length_skipBlanks_rest_le i
      have hlt := length_skipScalar_rest_lt hpeek hscalar
      omega
  | case6 i =>
      cases h
      exact Nat.le_refl _
  | case7 => cases h
  | case8 i _ _ _ k _ ih =>
      have hrest := ih h
      have hblanks : k.rest.length ≤ i.rest.length := length_skipBlanks_rest_le i
      have hadvance := length_advance_rest_le k
      omega
  | case9 => cases h
  | case10 i _ _ _ k _ _ _ _ l hstart ih =>
      have hrest := ih h
      have hblanks : k.rest.length ≤ i.rest.length := length_skipBlanks_rest_le i
      have hadvance := length_advance_rest_le k
      have hle := length_skipMemberStart_rest_le hstart
      omega
  | case11 => cases h
  | case12 i _ _ k _ _ _ l hstart _ ih =>
      have hrest := ih h
      have hblanks : k.rest.length ≤ i.rest.length := length_skipBlanks_rest_le i
      have hle := length_skipMemberStart_rest_le hstart
      omega
  | case13 => cases h

def skipValue (i : Input) : Except Fault Input :=
  i.skipDue .value []

end Input
end Json
end TokenStream
