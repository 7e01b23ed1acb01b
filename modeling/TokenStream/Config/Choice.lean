import TokenStream.Config.Fault
import TokenStream.Json.Skipping

/-!
# Choices in a configuration

A setting chooses one of several names.

**Form** the name as a string, or an object whose only member has that name and the value
`null`. Where it is allowed, `null` by itself chooses nothing.

**Complaints** a string that is none of the names is complained of behind the string. A value
that is neither a string nor an object has not the form of a choice, and neither has an object
without members or one whose first member has not a string for its name. A value of the member
that is not `null` is described.

**Results** reading a choice does not lengthen the text ahead.
-/

namespace TokenStream
namespace Config

/-- Names of which one is chosen. -/
structure Choice (α : Type) where
  all : List α
  name : α → List Char

def Choice.find? {α : Type} (choice : Choice α) (w : List Char) : Option α :=
  choice.all.find? fun a => choice.name a == w

/-- A complaint about the form, about what has been read. -/
def fault (i : Json.Input) (cause : Json.Cause) : Fault := .ofJson (i.fault cause)

/-- A complaint about the form, about the character ahead. -/
def faultAhead (i : Json.Input) (cause : Json.Cause) : Fault := .ofJson (i.faultAhead cause)

/-- Reading of a part of a document as reading of a part of a configuration. -/
def lift {α : Type} (r : Except Json.Fault α) : Except Fault α :=
  r.mapError Fault.ofJson

/-- A value of the wrong type that starts with `c`; lists and objects are not read further. -/
def readFound (i : Json.Input) (c : Char) : Except Fault (Found × Json.Input) :=
  if c = 'n' then do
    let j ← lift (i.advance.skipWord ['u', 'l', 'l'])
    pure (.null, j)
  else if c = 't' then do
    let j ← lift (i.advance.skipWord ['r', 'u', 'e'])
    pure (.boolean true, j)
  else if c = 'f' then do
    let j ← lift (i.advance.skipWord ['a', 'l', 's', 'e'])
    pure (.boolean false, j)
  else if c = '-' then do
    let (n, j) ← lift (i.advance.readNumber true)
    pure (.number n, j)
  else if isDigit c then do
    let (n, j) ← lift (i.readNumber false)
    pure (.number n, j)
  else if c = '"' then do
    let (s, j) ← lift i.advance.readString
    pure (.string s, j)
  else if c = '[' then pure (.list, i)
  else if c = '\x7b' then pure (.object, i)
  else .error (faultAhead i .expectedValue)

/-- The complaint about a value that starts with `c` and is not of the type that is wanted. -/
def wrongType (i : Json.Input) (c : Char) (wanted : List Char) : Fault :=
  match readFound i c with
  | .error e => e
  | .ok (found, j) => ⟨.invalidType found wanted, j.mark⟩

/-- The name of a choice, behind its opening quote. -/
def readName {α : Type} (choice : Choice α) (i : Json.Input) : Except Fault (α × Json.Input) :=
  match i.readString with
  | .error e => .error (.ofJson e)
  | .ok (w, j) =>
    match choice.find? w with
    | some a => .ok (a, j)
    | none => .error ⟨.unknownVariant w (choice.all.map choice.name), j.mark⟩

/-- The value `null` behind blanks. -/
def readNull (i : Json.Input) : Except Fault Json.Input :=
  let j := i.skipBlanks
  match j.peek with
  | none => .error (fault j (.ended .value))
  | some c =>
    if c = 'n' then lift (j.advance.skipWord ['u', 'l', 'l'])
    else .error (wrongType j c "unit".toList)

/-- The end of the object that holds a choice. -/
def closeChoice (i : Json.Input) : Except Fault Json.Input :=
  let j := i.skipBlanks
  match j.peek with
  | none => .error (fault j (.ended .object))
  | some c => if c = '\x7d' then .ok j.advance else .error (fault j .expectedValue)

/-- A choice written as an object, behind its opening bracket. -/
def readMemberChoice {α : Type} (choice : Choice α) (i : Json.Input) :
    Except Fault (α × Json.Input) :=
  let j := i.skipBlanks
  match j.peek with
  | none => .error (fault j (.ended .object))
  | some c =>
    if c = '"' then do
      let (a, k) ← readName choice j.advance
      let colon ← lift k.skipColon
      let null ← readNull colon
      let close ← closeChoice null
      pure (a, close)
    else .error (faultAhead j (if c = '\x7d' then .expectedValue else .keyNotString))

/-- A choice behind blanks. -/
def readChoice {α : Type} (choice : Choice α) (i : Json.Input) :
    Except Fault (α × Json.Input) :=
  let j := i.skipBlanks
  match j.peek with
  | none => .error (fault j (.ended .value))
  | some c =>
    if c = '"' then readName choice j.advance
    else if c = '\x7b' then readMemberChoice choice j.advance
    else .error (faultAhead j .expectedValue)

/-- A choice or `null`, behind blanks. -/
def readOptionalChoice {α : Type} (choice : Choice α) (i : Json.Input) :
    Except Fault (Option α × Json.Input) :=
  let j := i.skipBlanks
  if j.peek = some 'n' then do
    let k ← lift (j.advance.skipWord ['u', 'l', 'l'])
    pure (none, k)
  else do
    let (a, k) ← readChoice choice j
    pure (some a, k)

/-- A step that succeeds leaves at most so much ahead. -/
def Bounded {α : Type} (n : Nat) (r : Except Fault (α × Json.Input)) : Prop :=
  ∀ a j, r = .ok (a, j) → j.rest.length ≤ n

theorem bounded_error {α : Type} (n : Nat) (e : Fault) :
    Bounded n (.error e : Except Fault (α × Json.Input)) := by
  intro a j h
  cases h

theorem bounded_ok {α : Type} {n : Nat} (a : α) {j : Json.Input} (h : j.rest.length ≤ n) :
    Bounded n (.ok (a, j)) := by
  intro b k heq
  have hj : j = k := (Prod.mk.inj (Except.ok.inj heq)).2
  exact hj ▸ h

theorem bounded_bind {α β : Type} {n : Nat} {r : Except Fault β}
    {f : β → Except Fault (α × Json.Input)} (h : ∀ b, r = .ok b → Bounded n (f b)) :
    Bounded n (r >>= f) := by
  cases r with
  | error e => exact bounded_error n e
  | ok b => exact h b rfl

theorem eq_ok_of_lift {α : Type} {r : Except Json.Fault α} {a : α} (h : lift r = .ok a) :
    r = .ok a := by
  cases r with
  | error e => cases h
  | ok b => exact congrArg Except.ok (Except.ok.inj h)

theorem bounded_readName {α : Type} (choice : Choice α) (i : Json.Input) :
    Bounded i.rest.length (readName choice i) := by
  unfold readName
  split
  · exact bounded_error _ _
  · next w j hread =>
      have hle := Json.Input.length_readString_rest_le hread
      split
      · exact bounded_ok _ hle
      · exact bounded_error _ _

theorem length_readNull_rest_le {i j : Json.Input} (h : readNull i = .ok j) :
    j.rest.length ≤ i.rest.length := by
  have hblanks := Json.Input.length_skipBlanks_rest_le i
  have hadvance := Json.Input.length_advance_rest_le i.skipBlanks
  simp only [readNull] at h
  split at h
  · cases h
  · split at h
    · have hword := Json.Input.length_skipWord_rest_le (eq_ok_of_lift h)
      omega
    · cases h

theorem length_closeChoice_rest_le {i j : Json.Input} (h : closeChoice i = .ok j) :
    j.rest.length ≤ i.rest.length := by
  have hblanks := Json.Input.length_skipBlanks_rest_le i
  have hadvance := Json.Input.length_advance_rest_le i.skipBlanks
  simp only [closeChoice] at h
  split at h
  · cases h
  · split at h
    · cases h
      omega
    · cases h

theorem bounded_readMemberChoice {α : Type} (choice : Choice α) (i : Json.Input) :
    Bounded i.rest.length (readMemberChoice choice i) := by
  have hblanks := Json.Input.length_skipBlanks_rest_le i
  have hadvance := Json.Input.length_advance_rest_le i.skipBlanks
  simp only [readMemberChoice]
  split
  · exact bounded_error _ _
  · split
    · refine bounded_bind fun name hname => bounded_bind fun colon hcolon =>
        bounded_bind fun null hnull => bounded_bind fun close hclose => ?_
      have hname := bounded_readName choice i.skipBlanks.advance name.1 name.2 hname
      have hcolon := Json.Input.length_skipColon_rest_le (eq_ok_of_lift hcolon)
      have hnull := length_readNull_rest_le hnull
      have hclose := length_closeChoice_rest_le hclose
      exact bounded_ok _ (by omega)
    · exact bounded_error _ _

theorem bounded_readChoice {α : Type} (choice : Choice α) (i : Json.Input) :
    Bounded i.rest.length (readChoice choice i) := by
  have hblanks := Json.Input.length_skipBlanks_rest_le i
  have hadvance := Json.Input.length_advance_rest_le i.skipBlanks
  simp only [readChoice]
  split
  · exact bounded_error _ _
  · split
    · intro a j h
      have hname := bounded_readName choice _ a j h
      omega
    · split
      · intro a j h
        have hmember := bounded_readMemberChoice choice _ a j h
        omega
      · exact bounded_error _ _

theorem bounded_readOptionalChoice {α : Type} (choice : Choice α) (i : Json.Input) :
    Bounded i.rest.length (readOptionalChoice choice i) := by
  have hblanks := Json.Input.length_skipBlanks_rest_le i
  have hadvance := Json.Input.length_advance_rest_le i.skipBlanks
  simp only [readOptionalChoice]
  split
  · refine bounded_bind fun k hk => ?_
    have hword := Json.Input.length_skipWord_rest_le (eq_ok_of_lift hk)
    exact bounded_ok _ (by omega)
  · refine bounded_bind fun found hfound => ?_
    have hchoice := bounded_readChoice choice i.skipBlanks found.1 found.2 hfound
    exact bounded_ok _ (by omega)

end Config
end TokenStream
