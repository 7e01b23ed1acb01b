import TokenStream.Json.Fault
import TokenStream.Text.Utf8

/-!
# Strings in a JSON document

**Input** the text behind an opening quote.

**Readers** one reads a string for its value, and wants the halves of surrogate pairs to come
together; the other passes over a string whose value does not matter, and wants only the form of
the grammar.

**Results** neither reader lengthens the text ahead.
-/

namespace TokenStream
namespace Json

/-- The value of a hexadecimal digit of either case. -/
def hexDigit? (c : Char) : Option Nat :=
  if '0' ≤ c && c ≤ '9' then some (c.toNat - '0'.toNat)
  else if 'a' ≤ c && c ≤ 'f' then some (c.toNat - 'a'.toNat + 10)
  else if 'A' ≤ c && c ≤ 'F' then some (c.toNat - 'A'.toNat + 10)
  else none

/-- The characters that may not stand in a string as they are. -/
def isControl (c : Char) : Bool := c.toNat < 0x20

def isHighSurrogate (n : Nat) : Bool := 0xD800 ≤ n && n ≤ 0xDBFF

/-- The second half of a surrogate pair. -/
def isLowSurrogate (n : Nat) : Bool := 0xDC00 ≤ n && n ≤ 0xDFFF

def pairChar (high low : Nat) : Char :=
  Char.ofNat ((high - 0xD800) * 0x400 + (low - 0xDC00) + 0x10000)

/-- The escapes of one character, with what they stand for. -/
def shortEscape? : Char → Option Char
  | '"' => some '"'
  | '\\' => some '\\'
  | '/' => some '/'
  | 'b' => some '\x08'
  | 'f' => some '\x0c'
  | 'n' => some '\n'
  | 'r' => some '\r'
  | 't' => some '\t'
  | _ => none

namespace Input

/-- Four hexadecimal digits. If four bytes are not left, the string has no end; if they are not
four digits, the complaint bears the mark behind them. -/
def readHex (i : Input) : Read Nat :=
  let four := i.rest.take 4
  if Text.byteLength four < 4 then .error ⟨.ended .string, i.markAtEnd⟩
  else match four.mapM hexDigit? with
    | some digits => .ok (digits.foldl (fun n d => 16 * n + d) 0, i.skip 4)
    | none => .error ⟨.invalidEscape, i.mark.advanceBytes 4 i.rest⟩

/-- The character `c` has to be next, inside the second half of a surrogate pair. -/
def readPairChar (i : Input) (c : Char) : Except Fault Input :=
  match i.peek with
  | none => .error (i.fault (.ended .string))
  | some d => if d = c then .ok i.advance else .error (i.faultAhead .unfinishedPair)

/-- The second half of a surrogate pair. -/
def readLowSurrogate (i : Input) (high : Nat) : Read Char :=
  match i.readPairChar '\\' with
  | .error e => .error e
  | .ok j =>
    match j.readPairChar 'u' with
    | .error e => .error e
    | .ok k =>
      match k.readHex with
      | .error e => .error e
      | .ok (low, l) =>
        if isLowSurrogate low then .ok (pairChar high low, l)
        else .error (l.fault .loneSurrogate)

/-- A character by its code, behind the mark of such an escape. -/
def readCode (i : Input) : Read Char :=
  match i.readHex with
  | .error e => .error e
  | .ok (n, j) =>
    if isLowSurrogate n then .error (j.fault .loneSurrogate)
    else if isHighSurrogate n then j.readLowSurrogate n
    else .ok (Char.ofNat n, j)

/-- An escape, behind its backslash. -/
def readEscape (i : Input) : Read Char :=
  match i.peek with
  | none => .error (i.fault (.ended .string))
  | some c =>
    if c = 'u' then i.advance.readCode
    else match shortEscape? c with
      | some d => .ok (d, i.advance)
      | none => .error (i.faultAhead .invalidEscape)

theorem length_readHex_rest_le {i j : Input} {n : Nat} (h : i.readHex = .ok (n, j)) :
    j.rest.length ≤ i.rest.length := by
  simp only [readHex] at h
  split at h
  · cases h
  · split at h
    · cases h
      exact length_skip_rest_le i 4
    · cases h

theorem length_readPairChar_rest_le {i j : Input} {c : Char}
    (h : i.readPairChar c = .ok j) : j.rest.length ≤ i.rest.length := by
  simp only [readPairChar] at h
  split at h
  · cases h
  · split at h
    · cases h
      exact length_advance_rest_le i
    · cases h

theorem length_readLowSurrogate_rest_le {i l : Input} {high : Nat} {c : Char}
    (h : i.readLowSurrogate high = .ok (c, l)) : l.rest.length ≤ i.rest.length := by
  simp only [readLowSurrogate] at h
  split at h
  · cases h
  · next j hj =>
      split at h
      · cases h
      · next k hk =>
          split at h
          · cases h
          · next low m hm =>
              split at h
              · have heq : m = l := (Prod.mk.inj (Except.ok.inj h)).2
                have hij := length_readPairChar_rest_le hj
                have hjk := length_readPairChar_rest_le hk
                have hkl := length_readHex_rest_le hm
                subst heq
                omega
              · cases h

theorem length_readCode_rest_le {i j : Input} {c : Char} (h : i.readCode = .ok (c, j)) :
    j.rest.length ≤ i.rest.length := by
  simp only [readCode] at h
  split at h
  · cases h
  · next n k hk =>
      have hik := length_readHex_rest_le hk
      split at h
      · cases h
      · split at h
        · have hkj := length_readLowSurrogate_rest_le h
          omega
        · have heq : k = j := (Prod.mk.inj (Except.ok.inj h)).2
          subst heq
          exact hik

theorem length_readEscape_rest_le {i j : Input} {c : Char} (h : i.readEscape = .ok (c, j)) :
    j.rest.length ≤ i.rest.length := by
  have hadvance := length_advance_rest_le i
  simp only [readEscape] at h
  split at h
  · cases h
  · split at h
    · have hcode := length_readCode_rest_le h
      omega
    · split at h
      · cases h
        exact hadvance
      · cases h

/-- A string for its value, behind its opening quote. A complaint about a control character
bears the mark behind it. -/
def readString (i : Input) : Read (List Char) :=
  match _hpeek : i.peek with
  | none => .error (i.fault (.ended .string))
  | some c =>
    if c = '"' then .ok ([], i.advance)
    else if c = '\\' then
      match _hescape : i.advance.readEscape with
      | .error e => .error e
      | .ok (d, j) =>
        match j.readString with
        | .error e => .error e
        | .ok (ds, k) => .ok (d :: ds, k)
    else if isControl c then .error (i.faultAhead .controlCharacter)
    else
      match i.advance.readString with
      | .error e => .error e
      | .ok (ds, k) => .ok (c :: ds, k)
termination_by i.rest.length
decreasing_by
  · have hlt := length_advance_rest_lt i _hpeek
    have hle := length_readEscape_rest_le _hescape
    omega
  · exact length_advance_rest_lt i _hpeek

theorem length_readString_rest_le {i k : Input} {cs : List Char}
    (h : i.readString = .ok (cs, k)) : k.rest.length ≤ i.rest.length := by
  fun_induction readString i generalizing cs k with
  | case1 => cases h
  | case2 i _ =>
      cases h
      exact length_advance_rest_le i
  | case3 => cases h
  | case4 => cases h
  | case5 i d j hescape ds l hread _ _ ih =>
      have heq : l = k := (Prod.mk.inj (Except.ok.inj h)).2
      have hrest := ih hread
      have hle := length_readEscape_rest_le hescape
      have hadvance := length_advance_rest_le i
      subst heq
      omega
  | case6 => cases h
  | case7 => cases h
  | case8 i c _ _ _ _ ds l hread ih =>
      have heq : l = k := (Prod.mk.inj (Except.ok.inj h)).2
      have hrest := ih hread
      have hadvance := length_advance_rest_le i
      subst heq
      omega

/-- An escape whose value does not matter, behind its backslash. -/
def skipEscape (i : Input) : Except Fault Input :=
  match i.peek with
  | none => .error (i.fault (.ended .string))
  | some c =>
    if c = 'u' then i.advance.readHex.map Prod.snd
    else if (shortEscape? c).isSome then .ok i.advance
    else .error (i.faultAhead .invalidEscape)

theorem length_skipEscape_rest_le {i j : Input} (h : i.skipEscape = .ok j) :
    j.rest.length ≤ i.rest.length := by
  have hadvance := length_advance_rest_le i
  simp only [skipEscape] at h
  split at h
  · cases h
  · split at h
    · cases hhex : i.advance.readHex with
      | error e => simp [hhex, Except.map] at h
      | ok found =>
          have hle := length_readHex_rest_le (n := found.1) (j := found.2) hhex
          simp only [hhex, Except.map, Except.ok.injEq] at h
          subst h
          omega
    · split at h
      · cases h
        exact hadvance
      · cases h

/-- Passes over a string, behind its opening quote. A complaint about a control character bears
the mark in front of it. -/
def skipString (i : Input) : Except Fault Input :=
  match _hpeek : i.peek with
  | none => .error (i.fault (.ended .string))
  | some c =>
    if c = '"' then .ok i.advance
    else if c = '\\' then
      match _hescape : i.advance.skipEscape with
      | .error e => .error e
      | .ok j => j.skipString
    else if isControl c then .error (i.fault .controlCharacter)
    else i.advance.skipString
termination_by i.rest.length
decreasing_by
  · have hlt := length_advance_rest_lt i _hpeek
    have hle := length_skipEscape_rest_le _hescape
    omega
  · exact length_advance_rest_lt i _hpeek

theorem length_skipString_rest_le {i j : Input} (h : i.skipString = .ok j) :
    j.rest.length ≤ i.rest.length := by
  fun_induction skipString i with
  | case1 => cases h
  | case2 i hquote =>
      cases h
      exact length_advance_rest_le i
  | case3 => cases h
  | case4 i k hescape _ _ ih =>
      have hrest := ih h
      have hle := length_skipEscape_rest_le hescape
      have hadvance := length_advance_rest_le i
      omega
  | case5 => cases h
  | case6 i c _ _ _ _ ih =>
      have hrest := ih h
      have hadvance := length_advance_rest_le i
      omega

end Input
end Json
end TokenStream
