import SelectSyntax.Text.Place
import SelectSyntax.Text.Doubled
import SelectSyntax.Token.Kind

/-!
Tokens: a kind, the exact text, and where that text stands.
-/

set_option autoImplicit false
set_option relaxedAutoImplicit false

namespace SelectSyntax

open Text (Place)
open Text.Doubled (unquote)

/-- A token with its source text, the place of its first character and the byte offset past its
last one. -/
structure Token where
  kind : Token.Kind
  raw : String
  place : Place
  stop : Nat
  deriving DecidableEq, Repr

namespace Token

def initial : Token := ⟨.start, "", Place.start, 0⟩

/-- The text that a token stands for. Strings and quoted identifiers lose their delimiters, and
doubled delimiters inside become one; a fault stands for its message; all else for itself. -/
def value (t : Token) : String :=
  match t.kind with
  | .string => unquote '\'' t.raw
  | .identifier =>
      match t.raw.toList with
      | '"' :: _ => unquote '"' t.raw
      | '[' :: _ => unquote ']' t.raw
      | _ => t.raw
  | .fault f => f.message
  | _ => t.raw

def lexeme (t : Token) : String :=
  match t.kind with
  | .eof => "end of input"
  | .start => "start of input"
  | _ => t.raw

def isEof (t : Token) : Bool := t.kind == .eof

end Token

end SelectSyntax
