import TokenStream.Decimal.Layout
import TokenStream.Text.Quoted

/-!
# Tokens

The six sorts of token, each with the value that its sort carries.

**Texts** the tag of the sort, the text as it may stand in a source, and the line of a listing.

**Comparison** two tokens are the same if their sorts and values are; numbers are compared as
numbers, so that a NaN is not the same as itself and the two zeros are the same.
-/

namespace TokenStream

inductive Punctuation where
  | leftParen
  | rightParen
  | leftBrace
  | rightBrace
  | leftBracket
  | rightBracket
  | comma
  | semicolon
deriving DecidableEq, Repr

namespace Punctuation

def char : Punctuation → Char
  | leftParen => '('
  | rightParen => ')'
  | leftBrace => '\x7b'
  | rightBrace => '\x7d'
  | leftBracket => '['
  | rightBracket => ']'
  | comma => ','
  | semicolon => ';'

def all : List Punctuation :=
  [leftParen, rightParen, leftBrace, rightBrace, leftBracket, rightBracket, comma, semicolon]

/-- The punctuation mark that a character is, if it is one. -/
def ofChar? (c : Char) : Option Punctuation :=
  all.find? fun p => p.char == c

@[simp] theorem ofChar?_char (p : Punctuation) : ofChar? p.char = some p := by
  cases p <;> rfl

theorem char_of_ofChar? {c : Char} {p : Punctuation} (h : ofChar? c = some p) :
    p.char = c := by
  simpa using List.find?_some h

end Punctuation

def isPunctuation (c : Char) : Bool :=
  (Punctuation.ofChar? c).isSome

/-- The five words that are not identifiers. -/
inductive Keyword where
  | ifWord
  | thenWord
  | lambdaWord
  | trueWord
  | falseWord
deriving DecidableEq, Repr

namespace Keyword

def word : Keyword → List Char
  | ifWord => ['i', 'f']
  | thenWord => ['t', 'h', 'e', 'n']
  | lambdaWord => ['l', 'a', 'm', 'b', 'd', 'a']
  | trueWord => ['t', 'r', 'u', 'e']
  | falseWord => ['f', 'a', 'l', 's', 'e']

def all : List Keyword :=
  [ifWord, thenWord, lambdaWord, trueWord, falseWord]

/-- The keyword that a word is, if it is one. -/
def ofWord? (w : List Char) : Option Keyword :=
  all.find? fun k => k.word == w

@[simp] theorem ofWord?_word (k : Keyword) : ofWord? k.word = some k := by
  cases k <;> rfl

theorem word_of_ofWord? {w : List Char} {k : Keyword} (h : ofWord? w = some k) :
    k.word = w := by
  simpa using List.find?_some h

end Keyword

inductive Token where
  | punctuation (mark : Punctuation)
  | number (value : Binary64)
  | string (value : List Char)
  | keyword (word : Keyword)
  | identifier (name : List Char)
  | operator (symbol : List Char)
deriving DecidableEq, Repr

namespace Token

def tag : Token → List Char
  | punctuation _ => ['p', 'u', 'n', 'c']
  | number _ => ['n', 'u', 'm']
  | string _ => ['s', 't', 'r']
  | keyword _ => ['k', 'w']
  | identifier _ => ['v', 'a', 'r']
  | operator _ => ['o', 'p']

/-- The token as it may stand in a source text. -/
def text : Token → List Char
  | punctuation p => [p.char]
  | number x => Decimal.Layout.plain.text x
  | string s => Text.quote s
  | keyword k => k.word
  | identifier name => name
  | operator symbol => symbol

/-- The token as a line of a listing, without its newline: the tag in a field of five
characters, a space, and the text. -/
def line (t : Token) : List Char :=
  t.tag ++ List.replicate (5 - t.tag.length) ' ' ++ ' ' :: t.text

/-- The same sort and the same value, numbers being compared as numbers. -/
def same : Token → Token → Bool
  | punctuation p, punctuation q => p = q
  | number x, number y => x.numericEq y
  | string s, string t => s = t
  | keyword k, keyword l => k = l
  | identifier a, identifier b => a = b
  | operator a, operator b => a = b
  | _, _ => false

def isPunctuation (t : Token) (p : Punctuation) : Bool :=
  t = punctuation p

def isKeyword (t : Token) (k : Keyword) : Bool :=
  t = keyword k

def isOperator (t : Token) (symbol : List Char) : Bool :=
  t = operator symbol

/-- The word of a word that is a keyword or an identifier. -/
def ofWord (w : List Char) : Token :=
  match Keyword.ofWord? w with
  | some k => keyword k
  | none => identifier w

end Token
end TokenStream
