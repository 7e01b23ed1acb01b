import TokenStream.LexError

/-!
# Excerpts

The lines of a text around an error, with a caret under the place of the error.

**Form** a rule, the lines with their numbers in a gutter, and the rule again. Up to two lines
are shown on either side. The gutter is as wide as the largest number in it.

**Lines** end at newlines; a carriage return in front of a newline belongs to it. A newline at
the end of the text does not start another line.
-/

namespace TokenStream

def Text.lines : List Char → List (List Char)
  | [] => []
  | c :: cs =>
    if c = '\n' then [] :: lines cs
    else if c = '\r' && cs.head? = some '\n' then lines cs
    else match lines cs with
      | [] => [[c]]
      | line :: rest => (c :: line) :: rest

namespace Excerpt

/-- How many lines are shown on either side. -/
def margin : Nat := 2

/-- A text in a field of a width, to the right. -/
def padLeft (width : Nat) (cs : List Char) : List Char :=
  List.replicate (width - cs.length) ' ' ++ cs

def rule (width : Nat) : List Char :=
  List.replicate (width + 1) '-' ++ "|--\n".toList

def row (width number : Nat) (line : List Char) : List Char :=
  padLeft width (Decimal.natText number) ++ " | ".toList ++ line ++ ['\n']

def caret (width column : Nat) : List Char :=
  List.replicate width ' ' ++ " | ".toList ++ List.replicate column ' ' ++ "^\n".toList

/-- The rows of lines from a number on, with the caret under one of them. -/
def rows (width line column : Nat) : Nat → List (List Char) → List Char
  | _, [] => []
  | number, text :: rest =>
    row width number text ++ (if number = line then caret width column else []) ++
      rows width line column (number + 1) rest

end Excerpt

/-- The excerpt of a text around a line, with a caret under a column; nothing if the text has no
such line. Lines are counted from one and columns from zero. -/
def excerpt (source : List Char) (line column : Nat) : List Char :=
  let lines := Text.lines source
  if line = 0 || lines.length < line then []
  else
    let first := max (line - Excerpt.margin) 1
    let last := min (line + Excerpt.margin) lines.length
    let width := (Decimal.natText last).length
    let shown := (lines.drop (first - 1)).take (last + 1 - first)
    Excerpt.rule width ++ Excerpt.rows width line column first shown ++ Excerpt.rule width

/-- An error with the excerpt around its place. -/
def LexError.report (e : LexError) (source : List Char) : List Char :=
  "error: ".toList ++ e.text ++ '\n' :: excerpt source e.position.line e.position.column

end TokenStream
