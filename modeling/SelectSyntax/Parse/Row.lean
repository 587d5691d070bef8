import SelectSyntax.Parse.Combinators
import SelectSyntax.Parse.Entry

/-!
Row expressions: sums of products of powers of primaries.
-/

set_option autoImplicit false
set_option relaxedAutoImplicit false

namespace SelectSyntax.Parse

open Token (Kind Keyword)
open SyntaxTree (BinaryOp Expr UnaryOp)

def rowStart : List Kind :=
  [.number, .string, .keyword .TRUE, .keyword .FALSE, .keyword .NULL, .question, .plus, .minus,
    .keyword .CASE, .identifier, .keyword .AVG, .keyword .COUNT, .keyword .GROUPING, .keyword .MAX,
    .keyword .MIN, .keyword .NULLIF, .keyword .RANK, .keyword .SUM, .star, .leftParen]

def conditions (inner : Inner) : Parser (List Expr) := commaList (inner .condition)

def arguments (inner : Inner) : Parser (List Expr) := do
  expect .leftParen
  if ← eat .rightParen then pure []
  else
    let args ← conditions inner
    if ← eat .rightParen then pure args
    else unexpected [.comma, .rightParen]

def columnPathWithin : Nat → Parser (List String × Bool)
  | 0 => unexpected [.identifier, .star]
  | n + 1 => do
      if ← eat .star then pure ([], true)
      else
        match ← identifier? with
        | none => unexpected [.identifier, .star]
        | some name =>
            if ← eat .dot then
              let rest ← columnPathWithin n
              pure (name :: rest.1, rest.2)
            else pure ([name], false)

def columnPath : Parser (List String × Bool) := fun s =>
  columnPathWithin (s.cursor.remaining + 1) s

def columnOrCall (inner : Inner) : Parser Expr := do
  let path ← columnPath
  let k ← kind
  if !path.2 && k == .leftParen then
    let args ← arguments inner
    pure (.call path.1 args)
  else pure (.column path.1 path.2)

def branch? (inner : Inner) : Parser (Option (Expr × Expr)) := do
  if ← eat (.keyword .WHEN) then
    let condition ← inner .condition
    expect (.keyword .THEN)
    let result ← inner .condition
    pure (some (condition, result))
  else pure none

def caseEnd (inner : Inner) (operand : Option Expr) (branches : List (Expr × Expr)) :
    Parser Expr := do
  let otherwise ← after? (.keyword .ELSE) (inner .condition)
  if ← eat (.keyword .END) then pure (.case operand branches otherwise)
  else if otherwise.isSome then unexpected [.keyword .END]
  else unexpected [.keyword .WHEN, .keyword .ELSE, .keyword .END]

/-- A `CASE`, whose operand is a row expression and opens no level of its own. -/
def caseExpr (inner : Inner) (row : Parser Expr) : Parser Expr := do
  expect (.keyword .CASE)
  let k ← kind
  let operand ← if k = .keyword .WHEN then pure none else some <$> row
  let branches ← many (branch? inner)
  if branches.isEmpty then unexpected [.keyword .WHEN]
  else caseEnd inner operand branches

/-- What a parenthesis holds in a row expression: a single item stands for itself. -/
def ofParenthesis : SyntaxTree.Statement ⊕ List Expr → Expr
  | .inl query => .subquery query
  | .inr [item] => item
  | .inr items => .list items

def primary (inner : Inner) (row : Parser Expr) : Parser Expr := do
  let t ← token
  match t.kind with
  | .number => do
      advance
      pure (.number t.raw)
  | .string => do
      advance
      pure (.string t.value)
  | .keyword .TRUE => do
      advance
      pure (.bool true)
  | .keyword .FALSE => do
      advance
      pure (.bool false)
  | .keyword .NULL => do
      advance
      pure .null
  | .question => .parameter <$> parameter
  | .plus => do
      advance
      .unary .plus <$> inner .signed
  | .minus => do
      advance
      .unary .neg <$> inner .signed
  | .keyword .CASE => caseExpr inner row
  | .identifier | .star => columnOrCall inner
  | .leftParen => ofParenthesis <$> parenthesized (inner .query) (conditions inner)
  | .keyword k =>
      if k.isFunctionName then do
        advance
        .call [t.raw] <$> arguments inner
      else unexpected rowStart
  | _ => unexpected rowStart

def power? : Kind → Option BinaryOp
  | .caret => some .pow
  | _ => none

def sum (inner : Inner) (row : Parser Expr) : Parser Expr :=
  chain BinaryOp.sum? (chain BinaryOp.product? (chain power? (primary inner row)))

def rowWithin (inner : Inner) : Nat → Parser Expr
  | 0 => unexpected rowStart
  | n + 1 => sum inner (rowWithin inner n)

/-- A row expression. Each `CASE` takes a token, so that no more of them nest than tokens are
left. -/
def row (inner : Inner) : Parser Expr := fun s => rowWithin inner (s.cursor.remaining + 1) s

end SelectSyntax.Parse
