import SelectSyntax.Token.Kind

/-!
Lexemes: what one reading step takes from the front of a text.
-/

set_option autoImplicit false
set_option relaxedAutoImplicit false

namespace SelectSyntax

/-- A kind, the characters taken, and the characters left. -/
structure Lexeme where
  kind : Token.Kind
  text : List Char
  rest : List Char
  deriving DecidableEq, Repr

end SelectSyntax
