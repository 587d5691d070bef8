import SelectSyntax.Parse.Row
import SelectSyntax.Parse.Table

/-!
Queries: an optional `WITH`, a body of blocks joined by set operators, and an optional `ORDER BY`.
-/

set_option autoImplicit false
set_option relaxedAutoImplicit false

namespace SelectSyntax.Parse

open Token (Kind)
open SyntaxTree (Body Direction Expr Grouping NamedQuery OrderItem Projection SelectBlock SetOp
  SetQuantifier Statement TableRef WithClause)

def setQuantifier? : Kind → Option SetQuantifier
  | .keyword .ALL => some .all
  | .keyword .DISTINCT => some .distinct
  | _ => none

def setQuantifier : Parser SetQuantifier := do
  let q ← take? setQuantifier?
  pure (q.getD .unspecified)

def direction? : Kind → Option Direction
  | .keyword .ASC => some .asc
  | .keyword .DESC => some .desc
  | _ => none

def orderItem (inner : Inner) : Parser OrderItem := do
  let e ← row inner
  let direction ← take? direction?
  pure ⟨e, direction.getD .unspecified⟩

def projection (inner : Inner) : Parser Projection := do
  let e ← row inner
  let aliasName ← optionalAlias
  pure ⟨e, aliasName⟩

def tables (inner : Inner) : Parser (List TableRef) := do
  if ← eat (.keyword .FROM) then commaList (inner .table) else pure []

def grouping? (inner : Inner) : Parser (Option Grouping) := do
  if ← eat (.keyword .GROUP) then
    expect (.keyword .BY)
    let quantifier ← setQuantifier
    let items ← commaList (row inner)
    pure (some ⟨quantifier, items⟩)
  else pure none

def selectBlock (inner : Inner) : Parser SelectBlock := do
  expect (.keyword .SELECT)
  let quantifier ← setQuantifier
  let projections ← commaList (projection inner)
  let entries ← tables inner
  let filter ← after? (.keyword .WHERE) (inner .condition)
  let grouping ← grouping? inner
  let having ← after? (.keyword .HAVING) (inner .condition)
  pure ⟨quantifier, projections, entries, filter, grouping, having⟩

/-- A block, or a query body in parentheses, which leaves no node of its own. -/
def bodyPrimary (inner : Inner) : Parser Body := do
  match ← kind with
  | .keyword .SELECT => .block <$> selectBlock inner
  | .leftParen => enclosed (inner .body)
  | _ => unexpected [.keyword .SELECT, .leftParen]

def setTail? (operator : Kind → Option SetOp) (operand : Parser Body) :
    Parser (Option (SetOp × SetQuantifier × Body)) := do
  match ← take? operator with
  | none => pure none
  | some op => do
      let quantifier ← setQuantifier
      let right ← operand
      pure (some (op, quantifier, right))

def setChain (operator : Kind → Option SetOp) (operand : Parser Body) : Parser Body := do
  let first ← operand
  let rest ← many (setTail? operator operand)
  pure (rest.foldl (fun left next => .setOp next.1 next.2.1 left next.2.2) first)

def intersect? : Kind → Option SetOp
  | .keyword .INTERSECT => some .intersect
  | _ => none

def unionOrExcept? : Kind → Option SetOp
  | .keyword .UNION => some .union
  | .keyword .EXCEPT => some .except
  | _ => none

def body (inner : Inner) : Parser Body :=
  setChain unionOrExcept? (setChain intersect? (bodyPrimary inner))

def namedQuery (inner : Inner) : Parser NamedQuery := do
  let name ← identifier
  let columns ← optionalColumns
  if ← eat (.keyword .AS) then
    let query ← enclosed (inner .query)
    pure ⟨name, columns, query⟩
  else if columns.isEmpty then unexpected [.leftParen, .keyword .AS]
  else unexpected [.keyword .AS]

def withClause? (inner : Inner) : Parser (Option WithClause) := do
  if ← eat (.keyword .WITH) then
    let recursive ← eat (.keyword .RECURSIVE)
    let queries ← commaList (namedQuery inner)
    pure (some ⟨recursive, queries⟩)
  else pure none

def orderBy (inner : Inner) : Parser (List OrderItem) := do
  if ← eat (.keyword .ORDER) then
    expect (.keyword .BY)
    commaList (orderItem inner)
  else pure []

def query (inner : Inner) : Parser Statement := do
  let withClause ← withClause? inner
  let queryBody ← body inner
  let items ← orderBy inner
  pure ⟨withClause, queryBody, items⟩

/-- A whole statement: a query, an optional semicolon, and the end of the text where it is
required. -/
def wholeStatement (requireEnd : Bool) (inner : Inner) : Parser Statement := do
  let statement ← inner .query
  let _ ← eat .semicolon
  let k ← kind
  if requireEnd && k != .eof then unexpected [.eof]
  else pure statement

end SelectSyntax.Parse
