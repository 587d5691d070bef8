import SelectSyntax.Lexeme.Delimited
import SelectSyntax.Lexeme.Numeral
import SelectSyntax.Lexeme.Operator

/-!
Reading one lexeme from the front of a text that starts with no trivia.
-/

set_option autoImplicit false
set_option relaxedAutoImplicit false

namespace SelectSyntax.Lexeme

open Text.CharClass (isWordStart isWordChar)
open Token (Keyword)

/-- The word at the front of a text: a keyword where it spells one, else a bare identifier. -/
def readWord (text : List Char) : Lexeme :=
  let word := text.takeWhile isWordChar
  ⟨match Keyword.ofChars? word with
    | some k => .keyword k
    | none => .identifier, word, text.dropWhile isWordChar⟩

/-- The lexeme that starts with a point: a number if a digit follows, a separator of names if a name
or a star follows, and a fault otherwise. -/
def readDot (text : List Char) : Lexeme :=
  match text with
  | [] => ⟨.fault .bareDot, ['.'], []⟩
  | c :: _ =>
      if c.isDigit then Numeral.read ('.' :: text)
      else if isWordStart c || c == '"' || c == '[' || c == '*' then ⟨.dot, ['.'], text⟩
      else ⟨.fault .bareDot, ['.'], text⟩

def readSlash (text : List Char) : Lexeme :=
  match text with
  | '*' :: _ => ⟨.fault .unterminatedComment, '/' :: text, []⟩
  | _ => Operator.read '/' text

def read : List Char → Lexeme
  | [] => ⟨.eof, [], []⟩
  | c :: text =>
      if isWordStart c then readWord (c :: text)
      else if c.isDigit then Numeral.read (c :: text)
      else if c = '.' then readDot text
      else if c = '/' then readSlash text
      else if c = '\'' then Delimited.read .string .unterminatedString c '\'' text
      else if c = '"' then Delimited.read .identifier .unterminatedQuotedIdentifier c '"' text
      else if c = '[' then Delimited.read .identifier .unterminatedBracketIdentifier c ']' text
      else Operator.read c text

end SelectSyntax.Lexeme
