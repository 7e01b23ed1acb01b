import TokenStream.Position
import TokenStream.Decimal.Layout

/-!
# Lexical errors

An error is a cause and a place. Reading tokens has one cause of its own, a character that
starts no token; whoever reads on from the tokens may report causes in his own words.
-/

namespace TokenStream

inductive LexCause where
  | unexpected (c : Char)
  /-- A cause in the words of the one who reports it. -/
  | reported (message : List Char)
deriving DecidableEq, Repr

def LexCause.message : LexCause → List Char
  | unexpected c => "Can't handle character: ".toList ++ [c]
  | reported message => message

/-- An error: why reading stopped, and where. -/
structure LexError where
  cause : LexCause
  position : Position
deriving DecidableEq, Repr

namespace LexError

def message (e : LexError) : List Char :=
  e.cause.message

/-- The wording of the cause with line and column. -/
def text (e : LexError) : List Char :=
  e.message ++ ' ' :: '(' :: Decimal.natText e.position.line ++
    ':' :: Decimal.natText e.position.column ++ [')']

end LexError
end TokenStream
