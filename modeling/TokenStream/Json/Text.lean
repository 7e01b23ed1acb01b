import TokenStream.Text.Inspect

/-!
# Strings and numbers as JSON text

**Form** a string stands between quotes; quotes, backslashes and controls are escaped, the five
common controls by a letter and the others by four lower-case hexadecimal digits. Every other
character is written as it is.
-/

namespace TokenStream
namespace Json

/-- Four lower-case hexadecimal digits of a number below `0x10000`. -/
def hexText4 (n : Nat) : List Char :=
  let digits := Text.hexText n
  List.replicate (4 - digits.length) '0' ++ digits

/-- One character inside a JSON string. -/
def escapeChar (c : Char) : List Char :=
  if c = '"' then ['\\', '"']
  else if c = '\\' then ['\\', '\\']
  else if c = '\x08' then ['\\', 'b']
  else if c = '\x0c' then ['\\', 'f']
  else if c = '\n' then ['\\', 'n']
  else if c = '\r' then ['\\', 'r']
  else if c = '\t' then ['\\', 't']
  else if c.toNat < 0x20 then ['\\', 'u'] ++ hexText4 c.toNat
  else [c]

def stringText (cs : List Char) : List Char :=
  '"' :: cs.flatMap escapeChar ++ ['"']

end Json
end TokenStream
