import SelectSyntax.Lexeme.Basic

/-!
Operators and punctuation. Two characters that form an operator are read as one before either is
read alone.
-/

set_option autoImplicit false
set_option relaxedAutoImplicit false

namespace SelectSyntax.Lexeme.Operator

open Token (Kind)

def pairs : List ((Char × Char) × Kind) :=
  [(('!', '='), .notEq), (('|', '|'), .concat), (('<', '='), .ltEq), (('<', '>'), .notEq),
    (('>', '='), .gtEq)]

/-- The operators and marks of one character; two of them are only ever the start of a pair. -/
def singles : List (Char × Kind) :=
  [('^', .caret), ('%', .percent), ('+', .plus), ('-', .minus), ('*', .star), ('/', .slash),
    ('(', .leftParen), (')', .rightParen), (',', .comma), (';', .semicolon), ('?', .question),
    ('=', .eq), ('<', .lt), ('>', .gt), ('!', .fault .loneBang), ('|', .fault .lonePipe)]

/-- The lexeme of one character. A character that starts nothing is a fault. -/
def single (c : Char) (text : List Char) : Lexeme :=
  ⟨(singles.lookup c).getD (.fault (.unexpectedCharacter c)), [c], text⟩

def read (c : Char) : List Char → Lexeme
  | [] => single c []
  | d :: text =>
      match pairs.lookup (c, d) with
      | some kind => ⟨kind, [c, d], text⟩
      | none => single c (d :: text)

end SelectSyntax.Lexeme.Operator
