import SelectSyntax.Text.CharClass
import SelectSyntax.Text.Doubled
import SelectSyntax.Token.Keyword

/-!
Names of tables, columns and queries. A name is held as plain text and written bare where that can be
read back, else between double quotes.
-/

set_option autoImplicit false
set_option relaxedAutoImplicit false

namespace SelectSyntax.SyntaxTree.Name

open Text.CharClass (isWordStart isWordChar)
open Text.Doubled (quote)
open Token (Keyword)

/-- A name that can be written without quotes: a word that spells no keyword. -/
def isPlain (name : String) : Bool :=
  match name.toList with
  | [] => false
  | c :: text => isWordStart c && text.all isWordChar && (Keyword.ofText? name).isNone

def spelling (name : String) : String := if isPlain name then name else quote '"' name

end SelectSyntax.SyntaxTree.Name
