/-!
Classes of characters that decide where a lexeme starts and ends. All of them hold ASCII characters
only: a letter or digit of another alphabet belongs to none.
-/

set_option autoImplicit false
set_option relaxedAutoImplicit false

namespace SelectSyntax.Text.CharClass

/-- The blanks that may stand between lexemes: space, tab, carriage return, line feed and form
feed. -/
def isBlank (c : Char) : Bool :=
  c == ' ' || c == '\t' || c == '\r' || c == '\n' || c == '\x0c'

theorem isBlank_iff {c : Char} : isBlank c = true ↔ c ∈ [' ', '\t', '\r', '\n', '\x0c'] := by
  simp [isBlank, or_assoc]

def isWordStart (c : Char) : Bool := c.isAlpha || c == '_'

def isWordChar (c : Char) : Bool := c.isAlphanum || c == '_'

def isHexDigit (c : Char) : Bool :=
  c.isDigit || ('a' ≤ c && c ≤ 'f') || ('A' ≤ c && c ≤ 'F')

end SelectSyntax.Text.CharClass
