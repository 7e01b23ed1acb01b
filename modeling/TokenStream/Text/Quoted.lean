import TokenStream.Alphabet

/-!
# Quoted strings

The text of a string token: string marks around it, and an escape mark in front of each string
mark and each escape mark inside. Nothing else is escaped, so a quoted string may hold newlines.

**Results** what reading does at a string mark, at an escape mark and at any other character.
-/

namespace TokenStream
namespace Text

def escape : List Char → List Char
  | [] => []
  | c :: cs =>
    if c = stringMark || c = escapeMark then escapeMark :: c :: escape cs
    else c :: escape cs

def quote (cs : List Char) : List Char :=
  stringMark :: escape cs ++ [stringMark]

/-- What is found behind an opening string mark. -/
structure Body where
  value : List Char
  /-- The text of the body, the closing mark included. -/
  spelling : List Char
  closed : Bool
deriving DecidableEq, Repr

namespace Body

/-- The body with one more written character in front of its text. -/
def written (c : Char) (b : Body) : Body :=
  { b with spelling := c :: b.spelling }

/-- The body with one more character in front of its value. -/
def holding (c : Char) (b : Body) : Body :=
  { b with value := c :: b.value }

/-- Reads up to the closing mark or the end of the text. An escape mark makes the next
character stand for itself; at the end of the text it stands for nothing. -/
def read : List Char → Body
  | [] => ⟨[], [], false⟩
  | c :: cs =>
    if c = stringMark then ⟨[], [c], true⟩
    else if c = escapeMark then
      match cs with
      | [] => ⟨[], [c], false⟩
      | d :: ds => (((read ds).written d).written c).holding d
    else ((read cs).written c).holding c

theorem read_stringMark (cs : List Char) :
    read (stringMark :: cs) = ⟨[], [stringMark], true⟩ := by
  cases cs <;> simp [read]

theorem read_escapeMark (c : Char) (cs : List Char) :
    read (escapeMark :: c :: cs) = (((read cs).written c).written escapeMark).holding c := by
  have hmarks : ¬ escapeMark = stringMark := by decide
  simp [read, hmarks]

theorem read_cons {c : Char} (cs : List Char)
    (hstring : c ≠ stringMark) (hescape : c ≠ escapeMark) :
    read (c :: cs) = ((read cs).written c).holding c := by
  cases cs <;> simp [read, hstring, hescape]

end Body

end Text
end TokenStream
