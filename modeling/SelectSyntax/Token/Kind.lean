import SelectSyntax.Token.Keyword
import SelectSyntax.Token.Fault

/-!
Kinds of tokens: operators, punctuation, literals, identifiers, keywords, faults, and the two ends
of a text.
-/

set_option autoImplicit false
set_option relaxedAutoImplicit false

namespace SelectSyntax.Token

/-- The kind of a token. `start` is held before the first token is read, `eof` after the last. -/
inductive Kind where
  | caret | percent | plus | minus | star | slash
  | eq | notEq | lt | ltEq | gt | gtEq | concat
  | dot | leftParen | rightParen | comma | semicolon | question
  | string | number | identifier
  | keyword (k : Keyword)
  | fault (f : Fault)
  | start | eof
  deriving DecidableEq, Repr

namespace Kind

/-- The name of a kind in messages: its spelling where it has only one, else what it stands for. -/
def describe : Kind → String
  | .caret => "^"
  | .percent => "%"
  | .plus => "+"
  | .minus => "-"
  | .star => "*"
  | .slash => "/"
  | .eq => "="
  | .notEq => "<>"
  | .lt => "<"
  | .ltEq => "<="
  | .gt => ">"
  | .gtEq => ">="
  | .concat => "||"
  | .dot => "."
  | .leftParen => "("
  | .rightParen => ")"
  | .comma => ","
  | .semicolon => ";"
  | .question => "?"
  | .string => "string"
  | .number => "number"
  | .identifier => "identifier"
  | .keyword k => k.spelling
  | .fault _ => "invalid token"
  | .start => "start of input"
  | .eof => "end of input"

/-- The kinds on which a scanner stays for good. -/
def isTerminal : Kind → Bool
  | .eof | .fault _ => true
  | _ => false

def keyword? : Kind → Option Keyword
  | .keyword k => some k
  | _ => none

end Kind

end SelectSyntax.Token
