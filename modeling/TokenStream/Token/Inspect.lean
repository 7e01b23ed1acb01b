import TokenStream.Token.Basic
import TokenStream.Text.Inspect

/-!
# Descriptions of tokens

The form of a token inside an event: the name of its sort and its value in parentheses, on one
line. Punctuation marks and keywords are given by name, words and strings between quotes.
-/

namespace TokenStream

def Punctuation.name : Punctuation → List Char
  | leftParen => "LeftParen".toList
  | rightParen => "RightParen".toList
  | leftBrace => "LeftBrace".toList
  | rightBrace => "RightBrace".toList
  | leftBracket => "LeftBracket".toList
  | rightBracket => "RightBracket".toList
  | comma => "Comma".toList
  | semicolon => "Semicolon".toList

def Keyword.name : Keyword → List Char
  | ifWord => "If".toList
  | thenWord => "Then".toList
  | lambdaWord => "Lambda".toList
  | trueWord => "True".toList
  | falseWord => "False".toList

/-- A name applied to a value. -/
def Text.applied (name value : List Char) : List Char :=
  name ++ '(' :: value ++ [')']

def Token.inspect : Token → List Char
  | punctuation p => Text.applied "Punc".toList p.name
  | number x => Text.applied "Number".toList (Decimal.Layout.inspected.text x)
  | string s => Text.applied "Str".toList (Text.inspect s)
  | keyword k => Text.applied "Keyword".toList k.name
  | identifier name => Text.applied "Ident".toList (Text.inspect name)
  | operator symbol => Text.applied "Op".toList (Text.inspect symbol)

end TokenStream
