/-!
# Lower case, as far as ASCII words can tell

Lower-casing of a text for the purpose of comparing it with a word of ASCII letters.

**Algorithm** capital ASCII letters become small ones. Of all other characters of Unicode only
two have a lower-case form with an ASCII letter in it: the Kelvin sign, which becomes `k`, and
the capital I with a dot, which becomes `i` and a combining dot. Every other character is left
alone, which makes no difference here: its lower-case form holds no ASCII letter either.
-/

namespace TokenStream
namespace Text

/-- The small form of a capital ASCII letter; other characters stay. -/
def lowerAscii (c : Char) : Char :=
  if 'A' ≤ c && c ≤ 'Z' then Char.ofNat (c.toNat + 32) else c

def lowercaseChar (c : Char) : List Char :=
  if c = '\u212a' then ['k']
  else if c = '\u0130' then ['i', '\u0307']
  else [lowerAscii c]

def lowercase (cs : List Char) : List Char :=
  cs.flatMap lowercaseChar

end Text
end TokenStream
