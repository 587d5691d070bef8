import SelectSyntax.Lexeme.Basic
import SelectSyntax.Text.CharClass

/-!
Numeric lexemes: `0x` with hexadecimal digits, or decimal digits with at most one point among or
beside them and an optional exponent.
-/

set_option autoImplicit false
set_option relaxedAutoImplicit false

namespace SelectSyntax.Lexeme.Numeral

open Text.CharClass (isHexDigit isWordChar)

/-- The lexeme whose first two characters are a zero and the base mark. It needs a digit, and its
last digit must not be followed by a point or a word character: that character becomes part of the
fault. -/
def hexadecimal (zero mark : Char) (text : List Char) : Lexeme :=
  let digits := text.takeWhile isHexDigit
  let rest := text.dropWhile isHexDigit
  if digits.isEmpty then ⟨.fault .hexWithoutDigits, [zero, mark], rest⟩
  else
    match rest with
    | [] => ⟨.number, zero :: mark :: digits, []⟩
    | c :: more =>
        if c == '.' || isWordChar c then
          ⟨.fault .invalidHexLiteral, zero :: mark :: (digits ++ [c]), more⟩
        else ⟨.number, zero :: mark :: digits, c :: more⟩

/-- The digits before an exponent with at most one point, and the text after them. -/
def mantissa (text : List Char) : List Char × List Char :=
  let whole := text.takeWhile Char.isDigit
  let rest := text.dropWhile Char.isDigit
  match rest with
  | [] => (whole, [])
  | c :: more =>
      if c = '.' then
        (whole ++ c :: more.takeWhile Char.isDigit, more.dropWhile Char.isDigit)
      else (whole, rest)

def sign : List Char → List Char × List Char
  | [] => ([], [])
  | c :: text => if c = '+' ∨ c = '-' then ([c], text) else ([], c :: text)

/-- A decimal lexeme. An exponent mark without digits after it and its sign is a fault that takes
the mark and the sign. -/
def decimal (text : List Char) : Lexeme :=
  let m := mantissa text
  match m.2 with
  | [] => ⟨.number, m.1, []⟩
  | e :: more =>
      if e = 'e' ∨ e = 'E' then
        let s := sign more
        let digits := s.2.takeWhile Char.isDigit
        ⟨if digits.isEmpty then .fault .malformedExponent else .number,
          m.1 ++ e :: (s.1 ++ digits), s.2.dropWhile Char.isDigit⟩
      else ⟨.number, m.1, e :: more⟩

def read : List Char → Lexeme
  | c :: d :: text =>
      if c = '0' ∧ (d = 'x' ∨ d = 'X') then hexadecimal c d text else decimal (c :: d :: text)
  | text => decimal text

end SelectSyntax.Lexeme.Numeral
