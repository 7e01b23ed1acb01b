/-!
# Character classes

The classes that decide where a token starts and how far it goes.

**Classes** blanks, digits, identifier characters, operator characters, and two single
characters: the comment mark and the string mark. Only ASCII characters and the two Greek
lambdas belong to a class; every other character is in none.

**Results** an identifier can be continued by whatever starts it, and by digits.
-/

namespace TokenStream

def commentMark : Char := '#'

/-- The character that opens and closes a string. -/
def stringMark : Char := '"'

/-- The character that makes the next character of a string stand for itself. -/
def escapeMark : Char := '\\'

/-- Blanks separate tokens: space, tab and newline. -/
def isBlank (c : Char) : Bool :=
  c = ' ' || c = '\t' || c = '\n'

/-- The ten ASCII digits. -/
def isDigit (c : Char) : Bool :=
  '0' ≤ c && c ≤ '9'

/-- An identifier starts with an ASCII letter, an underscore or a Greek lambda. -/
def isIdentStart (c : Char) : Bool :=
  ('a' ≤ c && c ≤ 'z') || ('A' ≤ c && c ≤ 'Z') || c = '_' || c = 'λ' || c = 'Λ'

/-- An identifier goes on with its starting characters, digits and question marks. -/
def isIdentRest (c : Char) : Bool :=
  isIdentStart c || isDigit c || c = '?'

def operatorChars : List Char :=
  ['+', '-', '*', '/', '%', '=', '&', '|', '<', '>', '!']

/-- Operators are runs of these characters. -/
def isOperatorChar (c : Char) : Bool :=
  operatorChars.contains c

theorem isIdentRest_of_isIdentStart {c : Char} (h : isIdentStart c = true) :
    isIdentRest c = true := by
  simp [isIdentRest, h]

theorem isIdentRest_of_isDigit {c : Char} (h : isDigit c = true) :
    isIdentRest c = true := by
  simp [isIdentRest, h]

end TokenStream
