import TokenStream.Config.Basic
import TokenStream.Config.Choice

/-!
# Configurations as JSON documents

**Input** the text of a file.

**Form** an object with the settings by name, or a list of up to three settings in order. The
level of lexing may be `null`. What is not given has its default. Members with other names are
passed over, whatever their values.

**Results** each step of reading makes the text ahead shorter, so that objects of any size can
be read.
-/

namespace TokenStream
namespace Config

def formatChoice : Choice Format := ⟨Format.all, Format.name⟩

def levelChoice : Choice Level := ⟨Level.all, Level.name⟩

inductive Key where
  | output
  | logLevel
  | lexerLogLevel
deriving DecidableEq, Repr

def Key.name : Key → List Char
  | output => "output".toList
  | logLevel => "log_level".toList
  | lexerLogLevel => "lexer_log_level".toList

def Key.ofName? (w : List Char) : Option Key :=
  [output, logLevel, lexerLogLevel].find? fun key => key.name == w

structure Settings where
  output : Option Format
  logLevel : Option Level
  lexerLogLevel : Option (Option Level)
deriving DecidableEq, Repr

namespace Settings

def none : Settings := ⟨Option.none, Option.none, Option.none⟩

def has (s : Settings) : Key → Bool
  | .output => s.output.isSome
  | .logLevel => s.logLevel.isSome
  | .lexerLogLevel => s.lexerLogLevel.isSome

/-- The configuration, with the defaults for what is not given. -/
def config (s : Settings) : Config where
  output := s.output.getD default.output
  logLevel := s.logLevel.getD default.logLevel
  lexerLogLevel := s.lexerLogLevel.getD default.lexerLogLevel

end Settings

/-- The value of a setting, which is added to those given. -/
def readSetting (s : Settings) (key : Key) (i : Json.Input) :
    Except Fault (Settings × Json.Input) :=
  match key with
  | .output => do
    let (format, j) ← readChoice formatChoice i
    pure ({ s with output := some format }, j)
  | .logLevel => do
    let (level, j) ← readChoice levelChoice i
    pure ({ s with logLevel := some level }, j)
  | .lexerLogLevel => do
    let (level, j) ← readOptionalChoice levelChoice i
    pure ({ s with lexerLogLevel := some level }, j)

/-- Where a setting that is given twice is complained of: behind its second name, behind the
blanks that follow, and behind the bracket that closes the object if that comes next. -/
def duplicateMark (i : Json.Input) : Json.Mark :=
  let j := i.skipBlanks
  if j.peek = some '\x7d' then j.advance.mark else j.mark

/-- A member of the document, behind the opening quote of its name. -/
def readMember (s : Settings) (i : Json.Input) : Except Fault (Settings × Json.Input) :=
  match i.readString with
  | .error e => .error (.ofJson e)
  | .ok (w, j) =>
    match Key.ofName? w with
    | some key =>
      if s.has key then .error ⟨.duplicateField key.name, duplicateMark j⟩
      else do
        let k ← lift j.skipColon
        readSetting s key k
    | Option.none => do
      let k ← lift j.skipColon
      let l ← lift k.skipValue
      pure (s, l)

/-- Moves in front of the name of the next member, behind its opening quote; `none` if the
object ends here. -/
def nextMember (first : Bool) (i : Json.Input) : Except Fault (Option Json.Input) :=
  let j := i.skipBlanks
  match j.peek with
  | none => .error (fault j (.ended .object))
  | some c =>
    if c = '\x7d' then .ok none
    else if first then
      if c = '"' then .ok (some j.advance) else .error (faultAhead j .keyNotString)
    else if c = ',' then
      let k := j.advance.skipBlanks
      match k.peek with
      | none => .error (fault k (.ended .value))
      | some d =>
        if d = '"' then .ok (some k.advance)
        else if d = '\x7d' then .error (faultAhead k .trailingComma)
        else .error (faultAhead k .keyNotString)
    else .error (faultAhead j .expectedCommaOrBrace)

theorem length_nextMember_rest_lt {i j : Json.Input} {first : Bool}
    (h : nextMember first i = .ok (some j)) : j.rest.length < i.rest.length := by
  have hblanks := Json.Input.length_skipBlanks_rest_le i
  simp only [nextMember] at h
  split at h
  · cases h
  · next c hpeek =>
      have hadvance := Json.Input.length_advance_rest_lt i.skipBlanks hpeek
      split at h
      · cases h
      · split at h
        · split at h
          · cases h
            omega
          · cases h
        · split at h
          · split at h
            · cases h
            · next d hnext =>
                have hinner := Json.Input.length_skipBlanks_rest_le i.skipBlanks.advance
                have hmore := Json.Input.length_advance_rest_le i.skipBlanks.advance.skipBlanks
                split at h
                · cases h
                  omega
                · split at h <;> cases h
          · cases h

theorem bounded_readSetting (s : Settings) (key : Key) (i : Json.Input) :
    Bounded i.rest.length (readSetting s key i) := by
  cases key with
  | output =>
      refine bounded_bind fun found hfound => ?_
      exact bounded_ok _ (bounded_readChoice formatChoice i found.1 found.2 hfound)
  | logLevel =>
      refine bounded_bind fun found hfound => ?_
      exact bounded_ok _ (bounded_readChoice levelChoice i found.1 found.2 hfound)
  | lexerLogLevel =>
      refine bounded_bind fun found hfound => ?_
      exact bounded_ok _ (bounded_readOptionalChoice levelChoice i found.1 found.2 hfound)

theorem bounded_readMember (s : Settings) (i : Json.Input) :
    Bounded i.rest.length (readMember s i) := by
  unfold readMember
  split
  · exact bounded_error _ _
  · next w j hread =>
      have hstring := Json.Input.length_readString_rest_le hread
      split
      · next key hkey =>
          split
          · exact bounded_error _ _
          · refine bounded_bind fun colon hcolon => ?_
            have hcolon := Json.Input.length_skipColon_rest_le (eq_ok_of_lift hcolon)
            intro t k hsetting
            have hle := bounded_readSetting s key colon t k hsetting
            omega
      · refine bounded_bind fun colon hcolon => bounded_bind fun value hvalue => ?_
        have hcolon := Json.Input.length_skipColon_rest_le (eq_ok_of_lift hcolon)
        have hvalue := Json.Input.length_skipDue_rest_le (eq_ok_of_lift hvalue)
        exact bounded_ok _ (by omega)

/-- The members of an object and its closing bracket, with the settings given so far. -/
def readMembers (first : Bool) (s : Settings) (i : Json.Input) :
    Except Fault (Settings × Json.Input) :=
  match _hnext : nextMember first i with
  | .error e => .error e
  | .ok none => .ok (s, i.skipBlanks.advance)
  | .ok (some j) =>
    match _hmember : readMember s j with
    | .error e => .error e
    | .ok (t, k) => readMembers false t k
termination_by i.rest.length
decreasing_by
  have hlt := length_nextMember_rest_lt _hnext
  have hle := bounded_readMember s j t k _hmember
  omega

/-- The next element of a list of settings; `none` if the list ends here. -/
def nextElement (first : Bool) (i : Json.Input) : Except Fault (Option Json.Input) :=
  let j := i.skipBlanks
  match j.peek with
  | none => .error (fault j (.ended .list))
  | some c =>
    if c = ']' then .ok none
    else if first then .ok (some j)
    else if c = ',' then
      let k := j.advance.skipBlanks
      match k.peek with
      | none => .error (fault k (.ended .value))
      | some d =>
        if d = ']' then .error (faultAhead k .trailingComma) else .ok (some k)
    else .error (faultAhead j .expectedCommaOrBracket)

/-- A setting in a list, if the list has not ended. -/
def readElement (first : Bool) (s : Settings) (key : Key) (i : Json.Input) :
    Except Fault (Settings × Json.Input) := do
  match ← nextElement first i with
  | none => pure (s, i)
  | some j => readSetting s key j

/-- The end of a list of settings. -/
def closeList (i : Json.Input) : Except Fault Json.Input :=
  let j := i.skipBlanks
  match j.peek with
  | none => .error (fault j (.ended .list))
  | some c =>
    if c = ']' then .ok j.advance
    else if c = ',' then
      let k := j.advance.skipBlanks
      .error (faultAhead k (if k.peek = some ']' then .trailingComma else .trailingCharacters))
    else .error (faultAhead j .trailingCharacters)

/-- The elements of a list of settings and its closing bracket. -/
def readElements (i : Json.Input) : Except Fault (Settings × Json.Input) := do
  let (s, j) ← readElement true Settings.none .output i
  let (t, k) ← readElement false s .logLevel j
  let (u, l) ← readElement false t .lexerLogLevel k
  let close ← closeList l
  pure (u, close)

/-- The settings in a document, and what follows them. -/
def readSettings (i : Json.Input) : Except Fault (Settings × Json.Input) :=
  let j := i.skipBlanks
  match j.peek with
  | none => .error (fault j (.ended .value))
  | some c =>
    if c = '[' then readElements j.advance
    else if c = '\x7b' then readMembers true Settings.none j.advance
    else .error (wrongType j c "struct DriverConfig".toList)

/-- The configuration that a text holds. -/
def ofJson (text : List Char) : Except Fault Config := do
  let (s, i) ← readSettings (Json.Input.ofText text)
  let j := i.skipBlanks
  if j.rest.isEmpty then pure s.config
  else .error (faultAhead j .trailingCharacters)

end Config
end TokenStream
