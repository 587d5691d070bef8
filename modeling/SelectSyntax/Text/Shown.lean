import SelectSyntax.Text.Unprintable
import SelectSyntax.Text.ExtendingMark
import SelectSyntax.Text.DefaultIgnorable

/-!
The shown form of a single character, as messages write it between single quotes.
-/

set_option autoImplicit false
set_option relaxedAutoImplicit false

namespace SelectSyntax.Text.Shown

open Unprintable (isUnprintable)
open ExtendingMark (isExtendingMark)
open DefaultIgnorable (isDefaultIgnorable)

def byCodePoint (c : Char) : String :=
  "\\u\x7b" ++ String.ofList (Nat.toDigits 16 c.toNat) ++ "\x7d"

/-- NUL, tab, carriage return, line feed, the single quote and the backslash have short escapes;
a mark that extends its neighbour, a character drawn as nothing and one without a printed shape are
shown by code point; all else is itself. -/
def escape (c : Char) : String :=
  if c = '\x00' then "\\0"
  else if c = '\t' then "\\t"
  else if c = '\r' then "\\r"
  else if c = '\n' then "\\n"
  else if c = '\'' then "\\'"
  else if c = '\\' then "\\\\"
  else if isExtendingMark c || isDefaultIgnorable c || isUnprintable c then byCodePoint c
  else String.ofList [c]

def quoted (c : Char) : String := "'" ++ escape c ++ "'"

end SelectSyntax.Text.Shown
