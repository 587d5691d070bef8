import SelectSyntax.Token.Kind

/-!
Pieces of written text: the lexemes in order, and the single spaces between some of them. A tree is
written as pieces first, so that what is written can be compared with what is read lexeme by lexeme.
-/

set_option autoImplicit false
set_option relaxedAutoImplicit false

namespace SelectSyntax.Render

open Token (Kind Keyword)

/-- A space, or a lexeme of a kind. -/
inductive Piece where
  | gap
  | lexeme (kind : Kind) (text : String)
  deriving DecidableEq, Repr

namespace Piece

def text : Piece → String
  | .gap => " "
  | .lexeme _ text => text

def join (pieces : List Piece) : String := String.join (pieces.map text)

def mark (kind : Kind) : Piece := .lexeme kind kind.describe

def word (k : Keyword) : Piece := mark (.keyword k)

def wordsThenGap : List Keyword → List Piece
  | [] => []
  | k :: rest => word k :: gap :: wordsThenGap rest

def gapThenWords : List Keyword → List Piece
  | [] => []
  | k :: rest => gap :: word k :: gapThenWords rest

def parens (inside : List Piece) : List Piece :=
  mark .leftParen :: (inside ++ [mark .rightParen])

def parensIf (needed : Bool) (inside : List Piece) : List Piece :=
  if needed then parens inside else inside

def commas : List (List Piece) → List Piece
  | [] => []
  | [entry] => entry
  | entry :: rest => entry ++ mark .comma :: gap :: commas rest

end Piece

end SelectSyntax.Render
