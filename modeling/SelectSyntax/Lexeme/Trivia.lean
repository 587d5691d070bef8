import SelectSyntax.Text.CharClass

/-!
Trivia: the blanks and comments before a lexeme. A line comment runs from `--` up to the line feed
or the end of the text; a block comment from `/*` to the first `*/` after it, and does not nest. A
block comment that is never closed is no trivia: the gap ends in front of it.
-/

set_option autoImplicit false
set_option relaxedAutoImplicit false

namespace SelectSyntax.Lexeme.Trivia

open Text.CharClass (isBlank)

mutual

/-- The longest run of trivia at the front of a text, and the text after it. -/
def split : List Char → List Char × List Char
  | [] => ([], [])
  | [c] => if isBlank c then ([c], []) else ([], [c])
  | c :: d :: text =>
      if isBlank c then
        let r := split (d :: text)
        (c :: r.1, r.2)
      else if c = '-' ∧ d = '-' then
        let r := splitInLine text
        (c :: d :: r.1, r.2)
      else if c = '/' ∧ d = '*' then
        match splitInBlock? text with
        | some r => (c :: d :: r.1, r.2)
        | none => ([], c :: d :: text)
      else ([], c :: d :: text)

def splitInLine : List Char → List Char × List Char
  | [] => ([], [])
  | c :: text =>
      let r := if c = '\n' then split text else splitInLine text
      (c :: r.1, r.2)

def splitInBlock? : List Char → Option (List Char × List Char)
  | [] => none
  | [_] => none
  | c :: d :: text =>
      if c = '*' ∧ d = '/' then
        let r := split text
        some (c :: d :: r.1, r.2)
      else (splitInBlock? (d :: text)).map fun r => (c :: r.1, r.2)

end

end SelectSyntax.Lexeme.Trivia
