import TokenStream.Config.Basic
import TokenStream.LexError
import TokenStream.Text.Utf8
import TokenStream.Token.Inspect

/-!
# Events

What a run reports while it works, in the order in which it happens.

**View** an event has a level, a target, a message and named fields, which is all that a log
shows of it.
-/

namespace TokenStream

inductive Event where
  | readerCreated (bytes : Nat)
  | tokenRequested
  /-- A token or a comment starts here. -/
  | scanStarted (place : Position)
  | keywordMatched (word : Keyword)
  | stringUnclosed (value : List Char)
  /-- An error is made out. -/
  | errorRaised (error : LexError)
  /-- A token was found, and what follows it starts here. -/
  | tokenProduced (token : Token) (after : Position)
  | endReached
  /-- The search for a token met an error. -/
  | errorMet (error : LexError)
  | finished (count : Nat)
  | configured (config : Config)
deriving DecidableEq, Repr

inductive FieldValue where
  | count (n : Nat)
  /-- A text that is shown as it is. -/
  | shown (text : List Char)
  /-- A word that is shown between quotes where texts are told apart from numbers. -/
  | word (text : List Char)
deriving DecidableEq, Repr

def FieldValue.text : FieldValue → List Char
  | count n => Decimal.natText n
  | shown text => text
  | word text => text

structure Field where
  name : List Char
  value : FieldValue
deriving DecidableEq, Repr

namespace Event

def level : Event → Level
  | readerCreated _ => .trace
  | tokenRequested => .trace
  | scanStarted _ => .trace
  | keywordMatched _ => .debug
  | stringUnclosed _ => .debug
  | errorRaised _ => .debug
  | tokenProduced _ _ => .debug
  | endReached => .trace
  | errorMet _ => .warn
  | finished _ => .info
  | configured _ => .debug

/-- The part of the program that an event comes from. -/
def target : Event → List Char
  | readerCreated _ => "lamb::lexer::reader".toList
  | tokenRequested => "lamb::lexer::reader".toList
  | scanStarted _ => "lamb::lexer::scanner".toList
  | keywordMatched _ => "lamb::lexer::scanner".toList
  | stringUnclosed _ => "lamb::lexer::scanner".toList
  | errorRaised _ => "lamb::lexer::cursor".toList
  | tokenProduced _ _ => "lamb::lexer::reader".toList
  | endReached => "lamb::lexer::reader".toList
  | errorMet _ => "lamb::lexer::reader".toList
  | finished _ => "lamb::cli".toList
  | configured _ => "lamb::cli".toList

def message : Event → List Char
  | readerCreated _ => "Creating new TokenReader".toList
  | tokenRequested => "Requesting next token".toList
  | scanStarted _ => "Starting token scan".toList
  | keywordMatched _ => "Matched keyword".toList
  | stringUnclosed _ => "String reached end of input before closing quote".toList
  | errorRaised _ => "Raising lex error".toList
  | tokenProduced _ _ => "Produced token".toList
  | endReached => "Reached end of input".toList
  | errorMet _ => "Lex error encountered".toList
  | finished _ => "Tokenization finished".toList
  | configured _ => "Driver configured".toList

/-- Line and column of a place as fields. -/
def placeFields (p : Position) : List Field :=
  [⟨"line".toList, .count p.line⟩, ⟨"column".toList, .count p.column⟩]

def messageName : List Char := "message".toList

/-- The fields of an event in order, its message apart. -/
def fields : Event → List Field
  | readerCreated bytes => [⟨"bytes".toList, .count bytes⟩]
  | tokenRequested => []
  | scanStarted p => placeFields p
  | keywordMatched k => [⟨"keyword".toList, .word k.word⟩]
  | stringUnclosed value => [⟨"partial".toList, .shown value⟩]
  | errorRaised e => placeFields e.position ++ [⟨messageName, .shown e.message⟩]
  | tokenProduced t p => ⟨"token".toList, .shown t.inspect⟩ :: placeFields p
  | endReached => []
  | errorMet e => [⟨"error".toList, .shown e.text⟩]
  | finished count => [⟨"count".toList, .count count⟩]
  | configured config => [⟨"config".toList, .shown config.inspect⟩]

end Event
end TokenStream
