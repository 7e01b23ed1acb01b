import TokenStream.Text.Hidden

/-!
# Strings on one line

The text of a string that is shown inside a description: between double quotes, on one line,
with nothing in it that cannot be seen.

**Algorithm** quotes, backslashes and the four common controls have short escapes; any other
character that cannot be shown is written as its code point in lower-case hexadecimal digits.
-/

namespace TokenStream
namespace Text

/-- The lower-case hexadecimal digits of a natural number. -/
def hexText (n : Nat) : List Char :=
  Nat.toDigits 16 n

/-- One character of a string on one line. -/
def inspectChar (c : Char) : List Char :=
  if c = '"' then ['\\', '"']
  else if c = '\\' then ['\\', '\\']
  else if c = '\n' then ['\\', 'n']
  else if c = '\r' then ['\\', 'r']
  else if c = '\t' then ['\\', 't']
  else if c = '\x00' then ['\\', '0']
  else if isHidden c then ['\\', 'u', '\x7b'] ++ hexText c.toNat ++ ['\x7d']
  else [c]

def inspect (cs : List Char) : List Char :=
  '"' :: cs.flatMap inspectChar ++ ['"']

end Text
end TokenStream
