import SelectSyntax.Text.Shown

/-!
Malformed lexemes. A fault does not stop the scanner by itself: it becomes a token of its own, and
the scanner stays on it.
-/

set_option autoImplicit false
set_option relaxedAutoImplicit false

namespace SelectSyntax.Token

inductive Fault where
  | unterminatedString
  | unterminatedQuotedIdentifier
  | unterminatedBracketIdentifier
  | unterminatedComment
  | malformedExponent
  | hexWithoutDigits
  | invalidHexLiteral
  | bareDot
  | loneBang
  | lonePipe
  | unexpectedCharacter (c : Char)
  deriving DecidableEq, Repr

namespace Fault

def message : Fault → String
  | .unterminatedString => "unterminated string literal"
  | .unterminatedQuotedIdentifier => "unterminated quoted identifier"
  | .unterminatedBracketIdentifier => "unterminated bracketed identifier"
  | .unterminatedComment => "unterminated block comment"
  | .malformedExponent => "malformed exponent in numeric literal"
  | .hexWithoutDigits => "hexadecimal literal without digits"
  | .invalidHexLiteral => "invalid character after hexadecimal literal"
  | .bareDot => "unexpected '.'"
  | .loneBang => "expected '!='"
  | .lonePipe => "expected '||'"
  | .unexpectedCharacter c => "unexpected character " ++ Text.Shown.quoted c

end Fault

end SelectSyntax.Token
