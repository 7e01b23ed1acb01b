import TokenStream.Alphabet

/-!
# Marked input

The text of a JSON document that is still ahead, with the mark that a complaint about it bears.

**Marks** a mark counts lines from one and, in its line, the bytes of UTF-8 that have been read.
A complaint bears the mark of what has been read, or, if it is about the character ahead, the
mark one byte further on.

**Results** reading a character makes the text ahead shorter.
-/

namespace TokenStream
namespace Json

/-- How far a document has been read. -/
structure Mark where
  /-- Lines from one. -/
  line : Nat
  /-- Bytes read since the last newline. -/
  column : Nat
deriving DecidableEq, Repr

namespace Mark

def start : Mark := ⟨1, 0⟩

def advance (m : Mark) (c : Char) : Mark :=
  if c = '\n' then ⟨m.line + 1, 0⟩ else ⟨m.line, m.column + c.utf8Size⟩

def advanceBy (m : Mark) (cs : List Char) : Mark :=
  cs.foldl advance m

/-- The mark so many bytes into a text, which may be inside a character; at the end it stays. -/
def advanceBytes (m : Mark) : Nat → List Char → Mark
  | 0, _ => m
  | _, [] => m
  | bytes + 1, c :: cs =>
    if c.utf8Size ≤ bytes + 1 then advanceBytes (m.advance c) (bytes + 1 - c.utf8Size) cs
    else ⟨m.line, m.column + (bytes + 1)⟩

end Mark

/-- The text ahead, and the mark of what has been read. -/
structure Input where
  rest : List Char
  mark : Mark
deriving DecidableEq, Repr

namespace Input

def ofText (text : List Char) : Input := ⟨text, Mark.start⟩

def peek (i : Input) : Option Char := i.rest.head?

/-- The input behind `n` more characters. -/
def skip (i : Input) (n : Nat) : Input :=
  ⟨i.rest.drop n, i.mark.advanceBy (i.rest.take n)⟩

def advance (i : Input) : Input := i.skip 1

/-- The input behind the longest run of characters of a class. -/
def skipWhile (i : Input) (p : Char → Bool) : Input :=
  i.skip (i.rest.takeWhile p).length

/-- The blanks of JSON. -/
def isBlank (c : Char) : Bool :=
  c = ' ' || c = '\n' || c = '\t' || c = '\r'

def skipBlanks (i : Input) : Input := i.skipWhile isBlank

/-- The mark one byte further on. -/
def markAhead (i : Input) : Mark := i.mark.advanceBytes 1 i.rest

def markAtEnd (i : Input) : Mark := i.mark.advanceBy i.rest

theorem length_skip_rest_le (i : Input) (n : Nat) :
    (i.skip n).rest.length ≤ i.rest.length := by
  simp [skip]

theorem length_skipWhile_rest_le (i : Input) (p : Char → Bool) :
    (i.skipWhile p).rest.length ≤ i.rest.length :=
  length_skip_rest_le i _

theorem length_skipBlanks_rest_le (i : Input) :
    i.skipBlanks.rest.length ≤ i.rest.length :=
  length_skip_rest_le i _

theorem length_advance_rest_le (i : Input) : i.advance.rest.length ≤ i.rest.length :=
  length_skip_rest_le i 1

theorem length_advance_rest_lt (i : Input) {c : Char} (h : i.peek = some c) :
    i.advance.rest.length < i.rest.length := by
  cases hrest : i.rest with
  | nil => simp [peek, hrest] at h
  | cons a r => simp [advance, skip, hrest]

end Input
end Json
end TokenStream
