import TokenStream.Position

/-!
# Reading heads

A cursor is a whole text, the part of it that is still ahead, and the place where that part
starts.

**Operations** looking at the next character, taking one character, and passing over the
longest run of a class.

**Results** passing over characters takes them from what is ahead and moves the place by exactly
them, and passing over two parts in turn is passing over both.
-/

namespace TokenStream

/-- A reading head on a text. -/
structure Cursor where
  source : List Char
  rest : List Char
  /-- Where `rest` starts. -/
  position : Position
deriving DecidableEq, Repr

namespace Cursor

/-- A reading head at the start of a text. -/
def ofSource (source : List Char) : Cursor :=
  ⟨source, source, Position.start⟩

def peek (c : Cursor) : Option Char :=
  c.rest.head?

def atEnd (c : Cursor) : Bool :=
  c.rest.isEmpty

/-- The cursor after `n` more characters, or at the end if there are fewer. -/
def skip (c : Cursor) (n : Nat) : Cursor :=
  ⟨c.source, c.rest.drop n, c.position.advanceBy (c.rest.take n)⟩

/-- The cursor after the next character; at the end it stays. -/
def advance (c : Cursor) : Cursor :=
  c.skip 1

/-- The cursor after the longest run of characters of a class. -/
def skipWhile (c : Cursor) (p : Char → Bool) : Cursor :=
  c.skip (c.rest.takeWhile p).length

@[simp] theorem skip_rest (c : Cursor) (n : Nat) : (c.skip n).rest = c.rest.drop n := rfl

@[simp] theorem skip_position (c : Cursor) (n : Nat) :
    (c.skip n).position = c.position.advanceBy (c.rest.take n) := rfl

@[simp] theorem skip_zero (c : Cursor) : c.skip 0 = c := by
  cases c
  simp [skip]

theorem skip_skip (c : Cursor) (m n : Nat) : (c.skip m).skip n = c.skip (m + n) := by
  simp [skip, Position.advanceBy_append, List.take_add, List.drop_drop]

/-- Passing over a known front part leaves what follows it. -/
theorem skip_length_append (c : Cursor) {front back : List Char}
    (h : c.rest = front ++ back) :
    c.skip front.length = ⟨c.source, back, c.position.advanceBy front⟩ := by
  simp [skip, h]

@[simp] theorem skipWhile_rest (c : Cursor) (p : Char → Bool) :
    (c.skipWhile p).rest = c.rest.dropWhile p := by
  have h : c.rest.takeWhile p ++ c.rest.dropWhile p = c.rest :=
    List.takeWhile_append_dropWhile
  have hdrop : (c.rest.takeWhile p ++ c.rest.dropWhile p).drop (c.rest.takeWhile p).length
      = c.rest.dropWhile p := List.drop_left
  rw [h] at hdrop
  exact hdrop

/-- The longest run of a class is never longer than what is ahead. -/
theorem length_skipWhile_rest_le (c : Cursor) (p : Char → Bool) :
    (c.skipWhile p).rest.length ≤ c.rest.length := by
  simp [skipWhile]

end Cursor

end TokenStream
