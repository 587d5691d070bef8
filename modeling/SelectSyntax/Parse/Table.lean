import SelectSyntax.Parse.Combinators
import SelectSyntax.Parse.Entry

/-!
Entries of a `FROM`: tables, queries under a name, and joins of them grouped from the left.
-/

set_option autoImplicit false
set_option relaxedAutoImplicit false

namespace SelectSyntax.Parse

open Token (Kind)
open SyntaxTree (Expr JoinKind JoinSide TableRef)

def optionalAlias : Parser (Option String) := do
  if ← eat (.keyword .AS) then some <$> identifier else identifier?

def requiredAlias : Parser String := do
  if ← eat (.keyword .AS) then identifier
  else
    match ← identifier? with
    | some name => pure name
    | none => unexpected [.keyword .AS, .identifier]

def optionalColumns : Parser (List String) := do
  let k ← kind
  if k = .leftParen then identifierList else pure []

/-- The words of a join between `NATURAL` and `JOIN`, if a join goes on here; `JOIN` itself stays. -/
def joinSide? : Parser (Option JoinSide) := do
  match ← kind with
  | .keyword .JOIN => pure (some .plain)
  | .keyword .INNER => do
      advance
      pure (some .inner)
  | .keyword .LEFT => do
      advance
      let outer ← eat (.keyword .OUTER)
      pure (some (.left outer))
  | .keyword .RIGHT => do
      advance
      let outer ← eat (.keyword .OUTER)
      pure (some (.right outer))
  | .keyword .FULL => do
      advance
      let outer ← eat (.keyword .OUTER)
      pure (some (.full outer))
  | _ => pure none

def afterSide : JoinSide → List Kind
  | .left false | .right false | .full false => [.keyword .OUTER, .keyword .JOIN]
  | _ => [.keyword .JOIN]

def afterNatural : List Kind :=
  [.keyword .JOIN, .keyword .INNER, .keyword .LEFT, .keyword .RIGHT, .keyword .FULL]

def joinKind? : Parser (Option JoinKind) := do
  if ← eat (.keyword .CROSS) then
    expect (.keyword .JOIN)
    pure (some .cross)
  else
    let natural ← eat (.keyword .NATURAL)
    match ← joinSide? with
    | some side =>
        if ← eat (.keyword .JOIN) then pure (some (.sided natural side))
        else unexpected (afterSide side)
    | none => if natural then unexpected afterNatural else pure none

def onNotAllowed (kind : JoinKind) : String := "ON is not allowed after " ++ kind.spelling

def tableInParens (inner : Inner) : Parser TableRef := do
  match ← parenthesized (inner .query) (inner .table) with
  | .inl query => do
      let aliasName ← requiredAlias
      let columns ← optionalColumns
      pure (.derived query aliasName columns)
  | .inr table => pure table

def tablePrimary (inner : Inner) : Parser TableRef := do
  match ← kind with
  | .identifier => do
      let path ← separated .dot identifier
      let aliasName ← optionalAlias
      pure (.relation path aliasName)
  | .leftParen => tableInParens inner
  | _ => unexpected [.identifier, .leftParen]

/-- The condition of a join, which is there exactly when the join requires one. -/
def joinCondition (inner : Inner) (joinKind : JoinKind) : Parser (Option Expr) := do
  if joinKind.requiresCondition then
    expect (.keyword .ON)
    some <$> inner .condition
  else
    let k ← kind
    if k = .keyword .ON then fail (.notAllowed (onNotAllowed joinKind)) else pure none

def join? (inner : Inner) : Parser (Option (JoinKind × TableRef × Option Expr)) := do
  match ← joinKind? with
  | none => pure none
  | some joinKind => do
      let right ← tablePrimary inner
      let on ← joinCondition inner joinKind
      pure (some (joinKind, right, on))

def table (inner : Inner) : Parser TableRef := do
  let first ← tablePrimary inner
  let joins ← many (join? inner)
  pure (joins.foldl (fun left next => .join next.1 left next.2.1 next.2.2) first)

end SelectSyntax.Parse
