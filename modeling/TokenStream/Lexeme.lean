import TokenStream.Decimal.Numeral
import TokenStream.Token.Basic

/-!
# Lexemes

The spelling of one token in front of a text.

**Algorithm** the first character decides the sort: a string mark, a digit, the start of an
identifier, a punctuation mark or an operator character, asked in this order. Numerals, words
and operators then go on as far as their class does, a string up to its closing mark. A string
whose closing mark is missing ends with the text.

**Results** a spelling is never empty.
-/

namespace TokenStream

structure Lexeme where
  token : Token
  spelling : List Char
  /-- Not a string that ended with the text. -/
  closed : Bool
deriving DecidableEq, Repr

namespace Lexeme

/-- The lexeme in front of a text, unless the text is empty or its first character starts no
token. -/
def read? : List Char → Option Lexeme
  | [] => none
  | c :: cs =>
    if c = stringMark then
      let body := Text.Body.read cs
      some ⟨.string body.value, c :: body.spelling, body.closed⟩
    else if isDigit c then
      let numeral := Decimal.Numeral.read (c :: cs)
      some ⟨.number numeral.value, numeral.spelling, true⟩
    else if isIdentStart c then
      let word := (c :: cs).takeWhile isIdentRest
      some ⟨.ofWord word, word, true⟩
    else match Punctuation.ofChar? c with
      | some mark => some ⟨.punctuation mark, [c], true⟩
      | none =>
        if isOperatorChar c then
          let symbol := (c :: cs).takeWhile isOperatorChar
          some ⟨.operator symbol, symbol, true⟩
        else none

theorem spelling_ne_nil {cs : List Char} {x : Lexeme} (h : read? cs = some x) :
    x.spelling ≠ [] := by
  cases cs with
  | nil => simp [read?] at h
  | cons c cs =>
      simp only [read?] at h
      split at h
      · cases h
        simp
      · split at h
        · next hdigit =>
            cases h
            simp only [Decimal.Numeral.read, List.takeWhile_cons, hdigit, if_true,
              Decimal.Numeral.spelling]
            split <;> split <;> simp_all
        · split at h
          · next hstart =>
              cases h
              simp [isIdentRest_of_isIdentStart hstart]
          · split at h
            · cases h
              simp
            · split at h
              · next hoperator =>
                  cases h
                  simp [hoperator]
              · cases h

end Lexeme
end TokenStream
