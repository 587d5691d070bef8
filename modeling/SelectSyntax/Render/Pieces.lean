import SelectSyntax.Render.Level
import SelectSyntax.Render.Piece
import SelectSyntax.SyntaxTree.Name

/-!
Trees as pieces of text: keywords in upper case, names quoted where they have to be, parentheses only
where an operand binds looser than its place requires.
-/

set_option autoImplicit false
set_option relaxedAutoImplicit false

namespace SelectSyntax.Render

open Piece (gap mark word wordsThenGap gapThenWords parens parensIf commas)
open Text.Doubled (quote)
open Token (Keyword)
open SyntaxTree

def name (text : String) : Piece := .lexeme .identifier (Name.spelling text)

def path : List String → List Piece
  | [] => []
  | [last] => [name last]
  | first :: rest => name first :: mark .dot :: path rest

def columnList (columns : List String) : List Piece :=
  if columns.isEmpty then [] else gap :: parens (commas (columns.map fun c => [name c]))

def aliasPart : Option String → List Piece
  | none => []
  | some n => [gap, word .AS, gap, name n]

def columnRef (names : List String) (wildcard : Bool) : List Piece :=
  if wildcard then
    match names with
    | [] => [mark .star]
    | _ => path names ++ [mark .dot, mark .star]
  else path names

/-- The name of a function: a lone keyword that may name one is written bare, in its own letter
case. -/
def functionName (names : List String) : List Piece :=
  match names with
  | [n] =>
      match Keyword.ofText? n with
      | some k => if k.isFunctionName then [.lexeme (.keyword k) n] else path names
      | none => path names
  | _ => path names

def notPart (negated : Bool) : List Keyword := if negated then [.NOT] else []

/-- An operand at a place that reads expressions of a level. -/
def atLevel (level : Level) (e : Expr) (pieces : List Piece) : List Piece :=
  parensIf (decide (Level.ofExpr e < level)) pieces

def bodyAtLevel (level : Level) (b : Body) (pieces : List Piece) : List Piece :=
  parensIf (decide (Level.ofBody b < level)) pieces

/-- The operand of a sign: a second sign goes into parentheses, so that no two signs meet. -/
def signed (e : Expr) (pieces : List Piece) : List Piece :=
  match e with
  | .unary .. => parens pieces
  | _ => atLevel Level.primary e pieces

/-- The right side of a join: a second join goes into parentheses. -/
def joined (t : TableRef) (pieces : List Piece) : List Piece :=
  match t with
  | .join .. => parens pieces
  | _ => pieces

mutual

def expr : Expr → List Piece
  | .binary op left right =>
      atLevel (Level.operands op).1 left (expr left) ++ gap :: mark op.kind :: gap ::
        atLevel (Level.operands op).2 right (expr right)
  | .unary .not operand =>
      word .NOT :: gap :: atLevel Level.negation operand (expr operand)
  | .unary op operand => mark op.kind :: signed operand (expr operand)
  | .is value negated operand =>
      atLevel (Level.tested value) operand (expr operand) ++
        gapThenWords (.IS :: notPart negated ++ [value.keyword])
  | .quantified op quantifier left query =>
      atLevel Level.sum left (expr left) ++ gap :: mark op.kind :: gap ::
        word quantifier.keyword :: gap :: parens (statement query)
  | .between negated operand low high =>
      atLevel Level.sum operand (expr operand) ++
        gapThenWords (notPart negated ++ [.BETWEEN]) ++ gap ::
        (atLevel Level.sum low (expr low) ++ gap :: word .AND :: gap ::
          atLevel Level.sum high (expr high))
  | .inQuery negated operand query =>
      atLevel Level.sum operand (expr operand) ++ gapThenWords (notPart negated ++ [.IN]) ++
        gap :: parens (statement query)
  | .inValues negated operand values =>
      atLevel Level.sum operand (expr operand) ++ gapThenWords (notPart negated ++ [.IN]) ++
        gap :: parens (commas (exprs values))
  | .like negated operand pattern escape =>
      atLevel Level.sum operand (expr operand) ++ gapThenWords (notPart negated ++ [.LIKE]) ++
        gap :: (atLevel Level.sum pattern (expr pattern) ++ escapePart escape)
  | .existsQuery query => word .EXISTS :: gap :: parens (statement query)
  | .bool value => [word (if value then .TRUE else .FALSE)]
  | .null => [word .NULL]
  | .number text => [.lexeme .number text]
  | .string value => [.lexeme .string (quote '\'' value)]
  | .parameter _ => [mark .question]
  | .column names wildcard => columnRef names wildcard
  | .call names arguments => functionName names ++ parens (commas (exprs arguments))
  | .list items => parens (commas (exprs items))
  | .subquery query => parens (statement query)
  | .case operand branches otherwise =>
      word .CASE :: (operandPart operand ++ branchParts branches ++ elsePart otherwise ++
        [gap, word .END])

def exprs : List Expr → List (List Piece)
  | [] => []
  | e :: rest => expr e :: exprs rest

def escapePart : Option Expr → List Piece
  | none => []
  | some e => gap :: word .ESCAPE :: gap :: atLevel Level.sum e (expr e)

def operandPart : Option Expr → List Piece
  | none => []
  | some e => gap :: atLevel Level.sum e (expr e)

def branchParts : List (Expr × Expr) → List Piece
  | [] => []
  | (condition, result) :: rest =>
      gap :: word .WHEN :: gap :: (expr condition ++ gap :: word .THEN :: gap ::
        (expr result ++ branchParts rest))

def elsePart : Option Expr → List Piece
  | none => []
  | some e => gap :: word .ELSE :: gap :: expr e

def conditionPart (k : Keyword) : Option Expr → List Piece
  | none => []
  | some e => gap :: word k :: gap :: expr e

def rows : List Expr → List (List Piece)
  | [] => []
  | e :: rest => atLevel Level.sum e (expr e) :: rows rest

def groupingPart : Option Grouping → List Piece
  | none => []
  | some ⟨quantifier, items⟩ =>
      gap :: word .GROUP :: gap :: word .BY :: gap ::
        (wordsThenGap quantifier.keyword?.toList ++ commas (rows items))

def projections : List Projection → List (List Piece)
  | [] => []
  | ⟨e, aliasName⟩ :: rest =>
      (atLevel Level.sum e (expr e) ++ aliasPart aliasName) :: projections rest

def orderItems : List OrderItem → List (List Piece)
  | [] => []
  | ⟨e, direction⟩ :: rest =>
      (atLevel Level.sum e (expr e) ++ gapThenWords direction.keyword?.toList) :: orderItems rest

def tableRef : TableRef → List Piece
  | .relation names aliasName => path names ++ aliasPart aliasName
  | .derived query aliasName columns =>
      parens (statement query) ++ aliasPart (some aliasName) ++ columnList columns
  | .join kind left right condition =>
      tableRef left ++ gapThenWords kind.words ++ gap ::
        (joined right (tableRef right) ++ conditionPart .ON condition)

def tableRefs : List TableRef → List (List Piece)
  | [] => []
  | t :: rest => tableRef t :: tableRefs rest

def fromPart (tables : List TableRef) : List Piece :=
  match tables with
  | [] => []
  | t :: rest => gap :: word .FROM :: gap :: commas (tableRef t :: tableRefs rest)

def selectBlock : SelectBlock → List Piece
  | ⟨quantifier, entries, tables, filter, grouping, having⟩ =>
      word .SELECT :: gap :: (wordsThenGap quantifier.keyword?.toList ++
        commas (projections entries) ++ fromPart tables ++ conditionPart .WHERE filter ++
        groupingPart grouping ++ conditionPart .HAVING having)

def body : Body → List Piece
  | .setOp op quantifier left right =>
      let level := Level.ofBody (.setOp op quantifier left right)
      bodyAtLevel level left (body left) ++ gapThenWords (op.keyword :: quantifier.keyword?.toList) ++
        gap :: bodyAtLevel (level + 1) right (body right)
  | .block block => selectBlock block

def namedQueries : List NamedQuery → List (List Piece)
  | [] => []
  | ⟨n, columns, query⟩ :: rest =>
      (name n :: (columnList columns ++ gap :: word .AS :: gap :: parens (statement query))) ::
        namedQueries rest

def withPart : Option WithClause → List Piece
  | none => []
  | some ⟨recursive, queries⟩ =>
      word .WITH :: gap :: (wordsThenGap (if recursive then [.RECURSIVE] else []) ++
        commas (namedQueries queries) ++ [gap])

def statement : Statement → List Piece
  | ⟨withClause, queryBody, orderBy⟩ =>
      withPart withClause ++ body queryBody ++ orderPart orderBy

def orderPart (items : List OrderItem) : List Piece :=
  match items with
  | [] => []
  | ⟨e, direction⟩ :: rest =>
      gap :: word .ORDER :: gap :: word .BY :: gap ::
        commas ((atLevel Level.sum e (expr e) ++ gapThenWords direction.keyword?.toList) ::
          orderItems rest)

end

end SelectSyntax.Render
