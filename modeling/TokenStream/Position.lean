/-!
# Positions in a text

A position counts lines from one, columns from zero in code points, and bytes of the UTF-8
form from zero.

**Algorithm** a newline starts the next line at column zero; any other character moves one
column on; both move on by the bytes of their UTF-8 form.

**Results** moving over a concatenation is moving over its parts in turn.
-/

namespace TokenStream

/-- A place between two characters of a text. -/
structure Position where
  /-- Lines from one. -/
  line : Nat
  /-- Code points since the last newline. -/
  column : Nat
  /-- Bytes of UTF-8 since the start of the text. -/
  offset : Nat
deriving DecidableEq, Repr

namespace Position

def start : Position := ⟨1, 0, 0⟩

def advance (p : Position) (c : Char) : Position :=
  if c = '\n' then ⟨p.line + 1, 0, p.offset + c.utf8Size⟩
  else ⟨p.line, p.column + 1, p.offset + c.utf8Size⟩

def advanceBy (p : Position) (cs : List Char) : Position :=
  cs.foldl advance p

@[simp] theorem advanceBy_nil (p : Position) : p.advanceBy [] = p := rfl

@[simp] theorem advanceBy_cons (p : Position) (c : Char) (cs : List Char) :
    p.advanceBy (c :: cs) = (p.advance c).advanceBy cs := rfl

theorem advanceBy_append (p : Position) (cs ds : List Char) :
    p.advanceBy (cs ++ ds) = (p.advanceBy cs).advanceBy ds := by
  simp [advanceBy]

/-- Every place met on the way over a run of characters, the starting one first. -/
def trail (p : Position) : List Char → List Position
  | [] => [p]
  | c :: cs => p :: trail (p.advance c) cs

end Position

end TokenStream
