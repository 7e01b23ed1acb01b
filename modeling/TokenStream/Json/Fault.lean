import TokenStream.Json.Input

/-!
# Complaints about the form of a JSON document

A complaint is a cause and a mark. The causes fall into two sorts: the text ended too early, or
it holds something that is not allowed at its place.
-/

namespace TokenStream
namespace Json

/-- What was being read when the text ended. -/
inductive Unfinished where
  | value
  | object
  | list
  | string
deriving DecidableEq, Repr

/-- Why a text is not a document. -/
inductive Cause where
  | ended (during : Unfinished)
  | expectedValue
  | expectedColon
  | expectedCommaOrBrace
  | expectedCommaOrBracket
  | keyNotString
  | trailingCharacters
  | trailingComma
  /-- A word that starts like `null`, `true` or `false` and goes on otherwise. -/
  | misspeltWord
  | invalidNumber
  | numberOutOfRange
  | invalidEscape
  /-- The second half of a surrogate pair without its first. -/
  | loneSurrogate
  /-- The first half of a surrogate pair without its second. -/
  | unfinishedPair
  | controlCharacter
deriving DecidableEq, Repr

def Unfinished.text : Unfinished → List Char
  | value => "a value".toList
  | object => "an object".toList
  | list => "a list".toList
  | string => "a string".toList

def Cause.message : Cause → List Char
  | ended during => "EOF while parsing ".toList ++ during.text
  | expectedValue => "expected value".toList
  | expectedColon => "expected `:`".toList
  | expectedCommaOrBrace => "expected `,` or `\x7d`".toList
  | expectedCommaOrBracket => "expected `,` or `]`".toList
  | keyNotString => "key must be a string".toList
  | trailingCharacters => "trailing characters".toList
  | trailingComma => "trailing comma".toList
  | misspeltWord => "expected ident".toList
  | invalidNumber => "invalid number".toList
  | numberOutOfRange => "number out of range".toList
  | invalidEscape => "invalid escape".toList
  | loneSurrogate => "lone leading surrogate in hex escape".toList
  | unfinishedPair => "unexpected end of hex escape".toList
  | controlCharacter =>
    "control character (\\u0000-\\u001F) found while parsing a string".toList

structure Fault where
  cause : Cause
  mark : Mark
deriving DecidableEq, Repr

/-- A step of reading: a value and the input behind it, or a complaint. -/
abbrev Read (α : Type) := Except Fault (α × Input)

namespace Input

/-- A complaint about what has been read. -/
def fault (i : Input) (cause : Cause) : Fault := ⟨cause, i.mark⟩

/-- A complaint about the character ahead. -/
def faultAhead (i : Input) (cause : Cause) : Fault := ⟨cause, i.markAhead⟩

end Input
end Json
end TokenStream
