import SelectSyntax.Lexeme.Basic

/-!
Delimited lexemes: strings and quoted identifiers. The closing delimiter stands for itself when it is
written twice.
-/

set_option autoImplicit false
set_option relaxedAutoImplicit false

namespace SelectSyntax.Lexeme.Delimited

open Token (Kind Fault)

/-- The characters up to and including the closing delimiter, and those after it; nothing if the
delimiter never closes. -/
def close? (q : Char) : List Char → Option (List Char × List Char)
  | [] => none
  | [c] => if c = q then some ([c], []) else none
  | c :: d :: text =>
      if c = q then
        if d = q then (close? q text).map fun r => (c :: d :: r.1, r.2)
        else some ([c], d :: text)
      else (close? q (d :: text)).map fun r => (c :: r.1, r.2)

/-- The lexeme from an opening delimiter on. One that never closes takes the whole text. -/
def read (kind : Kind) (unclosed : Fault) (opening closing : Char) (text : List Char) : Lexeme :=
  match close? closing text with
  | some r => ⟨kind, opening :: r.1, r.2⟩
  | none => ⟨.fault unclosed, opening :: text, []⟩

end SelectSyntax.Lexeme.Delimited
