import SelectSyntax.Parse.Basic
import SelectSyntax.SyntaxTree.Node

/-!
Ways to build parsers from parsers: repetition, lists, chains of operators, and the choice between
the two readings of a parenthesis.
-/

set_option autoImplicit false
set_option relaxedAutoImplicit false

namespace SelectSyntax.Parse

open Token (Kind)
open SyntaxTree (BinaryOp Expr Statement)

def manyWithin {α : Type} (item? : Parser (Option α)) : Nat → Parser (List α)
  | 0 => pure []
  | n + 1 => do
      match ← item? with
      | none => pure []
      | some a => do
          let rest ← manyWithin item? n
          pure (a :: rest)

/-- Items one after another until there is none. Each takes a token, so that there are no more of
them than tokens left. -/
def many {α : Type} (item? : Parser (Option α)) : Parser (List α) := fun s =>
  manyWithin item? s.cursor.remaining s

def after? {α : Type} (k : Kind) (item : Parser α) : Parser (Option α) := do
  if ← eat k then
    let a ← item
    pure (some a)
  else pure none

def separated {α : Type} (k : Kind) (item : Parser α) : Parser (List α) := do
  let first ← item
  let rest ← many (after? k item)
  pure (first :: rest)

def commaList {α : Type} (item : Parser α) : Parser (List α) := separated .comma item

def tail? (operator : Kind → Option BinaryOp) (operand : Parser Expr) :
    Parser (Option (BinaryOp × Expr)) := do
  match ← take? operator with
  | none => pure none
  | some op => do
      let right ← operand
      pure (some (op, right))

def chain (operator : Kind → Option BinaryOp) (operand : Parser Expr) : Parser Expr := do
  let first ← operand
  let rest ← many (tail? operator operand)
  pure (rest.foldl (fun left next => .binary next.1 left next.2) first)

def identifierList : Parser (List String) := do
  expect .leftParen
  let names ← commaList identifier
  if ← eat .rightParen then pure names
  else unexpected [.comma, .rightParen]

def closed {α : Type} (inside : Parser α) : Parser α := do
  let a ← inside
  expect .rightParen
  pure a

def enclosed {α : Type} (inside : Parser α) : Parser α := do
  expect .leftParen
  closed inside

/-- The first of two readings that succeeds, each from the same place. If neither does, the failure
found further on is kept, and the state is the one that the second reading left. -/
def prefer {α : Type} (first second : Parser α) : Parser α := fun s =>
  match first s with
  | .ok a t => .ok a t
  | .error e u =>
      match second (u.restore s.checkpoint) with
      | .ok a t => .ok a t
      | .error f t => .error (e.further f) t

def startsQuery : Kind → Bool
  | .keyword .SELECT | .keyword .WITH | .leftParen => true
  | _ => false

/-- A query in parentheses, or something else in parentheses. The query is tried only if the first
token inside can start one, and then it is tried first. -/
def parenthesized {α : Type} (query : Parser Statement) (other : Parser α) :
    Parser (Statement ⊕ α) := do
  expect .leftParen
  let k ← kind
  if startsQuery k then prefer (Sum.inl <$> closed query) (Sum.inr <$> closed other)
  else Sum.inr <$> closed other

end SelectSyntax.Parse
