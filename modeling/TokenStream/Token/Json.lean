import TokenStream.Json.Text
import TokenStream.Token.Basic

/-!
# Tokens as JSON text

A token is an object with its tag and its value. Numbers are JSON numbers, and `null` if they
are not finite; all other values are strings.

**Layouts** `json` has no blanks; `prettyJson` has one member a line, indented by two blanks a
level, for a token inside a list.
-/

namespace TokenStream
namespace Token

def jsonValue : Token → List Char
  | punctuation p => Json.stringText [p.char]
  | number x => Decimal.Layout.json.text x
  | string s => Json.stringText s
  | keyword k => Json.stringText k.word
  | identifier name => Json.stringText name
  | operator symbol => Json.stringText symbol

/-- A token as JSON text without blanks. -/
def json (t : Token) : List Char :=
  "\x7b\"type\":".toList ++ Json.stringText t.tag ++ ",\"value\":".toList ++ t.jsonValue ++
    "\x7d".toList

/-- A token as an element of a list of tokens, one member a line. -/
def prettyJson (t : Token) : List Char :=
  "  \x7b\n    \"type\": ".toList ++ Json.stringText t.tag ++ ",\n    \"value\": ".toList ++
    t.jsonValue ++ "\n  \x7d".toList

/-- The elements of a list of tokens, divided by commas. -/
def prettyElements : List Token → List Char
  | [] => []
  | [t] => t.prettyJson
  | t :: ts => t.prettyJson ++ ",\n".toList ++ prettyElements ts

/-- A list of tokens as JSON text, one member a line. -/
def prettyList (ts : List Token) : List Char :=
  if ts.isEmpty then "[]".toList
  else "[\n".toList ++ prettyElements ts ++ "\n]".toList

end Token
end TokenStream
