import TokenStream.Event.Basic
import TokenStream.Lexeme
import TokenStream.Trivia

/-!
# The search for one token

**Input** a cursor.

**Algorithm** blanks and comments are passed over; then the lexeme ahead is read and passed
over. A character that starts no token is an error, and is not passed over.

**Output** the token, or that there is none, or the error; the events on the way; and the cursor
behind the lexeme, at the end, or in front of the character that starts no token.

**Results** a search that finds a token leaves less ahead than before.
-/

namespace TokenStream

structure Scan where
  /-- The token, `none` at the end of the text, or an error. -/
  outcome : Except LexError (Option Token)
  events : List Event
  cursor : Cursor

/-- What a lexeme has to report besides its token. -/
def Lexeme.events (x : Lexeme) : List Event :=
  match x.token with
  | .keyword k => [.keywordMatched k]
  | .string value => if x.closed then [] else [.stringUnclosed value]
  | _ => []

namespace Cursor

/-- An error at the place of the cursor. -/
def fail (c : Cursor) (cause : LexCause) : LexError :=
  ⟨cause, c.position⟩

/-- The search for a token from a place behind blanks and comments. -/
def scanLexeme (c : Cursor) : Scan :=
  match c.rest with
  | [] => ⟨.ok none, [], c⟩
  | a :: _ =>
    match Lexeme.read? c.rest with
    | some x =>
      ⟨.ok (some x.token), .scanStarted c.position :: x.events, c.skip x.spelling.length⟩
    | none =>
      let error := c.fail (.unexpected a)
      ⟨.error error, [.scanStarted c.position, .errorRaised error], c⟩

def scan (c : Cursor) : Scan :=
  let trivia := c.skipTrivia
  let found := trivia.2.scanLexeme
  { found with events := trivia.1.map .scanStarted ++ found.events }

theorem length_skipTrivia_rest_le (c : Cursor) :
    c.skipTrivia.2.rest.length ≤ c.rest.length := by
  fun_induction skipTrivia c with
  | case1 c d hmark marks last hlast ih =>
      have hlt := length_skipComment_rest_lt d hmark
      have hle : d.rest.length ≤ c.rest.length := length_skipWhile_rest_le c isBlank
      rw [hlast] at ih
      simp only at ih ⊢
      omega
  | case2 c d hmark => exact length_skipWhile_rest_le c isBlank

theorem length_scanLexeme_rest_lt {c : Cursor} {t : Token}
    (h : c.scanLexeme.outcome = .ok (some t)) :
    c.scanLexeme.cursor.rest.length < c.rest.length := by
  cases hrest : c.rest with
  | nil => simp [scanLexeme, hrest] at h
  | cons a r =>
      cases hread : Lexeme.read? (a :: r) with
      | none => simp [scanLexeme, hrest, hread] at h
      | some x =>
          have hne : 0 < x.spelling.length :=
            List.length_pos_iff.mpr (Lexeme.spelling_ne_nil hread)
          simp only [scanLexeme, hrest, hread, skip_rest, List.length_drop, List.length_cons]
          omega

/-- A token that was found is no longer ahead. -/
theorem length_scan_rest_lt {c : Cursor} {t : Token} (h : c.scan.outcome = .ok (some t)) :
    c.scan.cursor.rest.length < c.rest.length := by
  have hle := length_skipTrivia_rest_le c
  have hlt := length_scanLexeme_rest_lt (c := c.skipTrivia.2) h
  exact Nat.lt_of_lt_of_le hlt hle

end Cursor
end TokenStream
