import SelectSyntax.Parse.Row

/-!
Search conditions: predicates under `IS`, `NOT`, `AND` and `OR`.
-/

set_option autoImplicit false
set_option relaxedAutoImplicit false

namespace SelectSyntax.Parse

open Token (Kind)
open SyntaxTree (BinaryOp Expr Quantifier TruthValue)

def conditionStart : List Kind := .keyword .NOT :: .keyword .EXISTS :: rowStart

def comparisonEnd (inner : Inner) (left : Expr) (op : BinaryOp) : Parser Expr := do
  match ← take? Quantifier.ofKind? with
  | some quantifier => .quantified op quantifier left <$> enclosed (inner .query)
  | none => .binary op left <$> row inner

def betweenEnd (inner : Inner) (negated : Bool) (operand : Expr) : Parser Expr := do
  expect (.keyword .BETWEEN)
  let low ← row inner
  expect (.keyword .AND)
  let high ← row inner
  pure (.between negated operand low high)

def inEnd (inner : Inner) (negated : Bool) (operand : Expr) : Parser Expr := do
  expect (.keyword .IN)
  match ← parenthesized (inner .query) (conditions inner) with
  | .inl query => pure (.inQuery negated operand query)
  | .inr values => pure (.inValues negated operand values)

def likeEnd (inner : Inner) (negated : Bool) (operand : Expr) : Parser Expr := do
  expect (.keyword .LIKE)
  let pattern ← row inner
  let escape ← after? (.keyword .ESCAPE) (row inner)
  pure (.like negated operand pattern escape)

/-- `IS NULL` or `IS NOT NULL` as a whole, and whether it is negated; any other `IS` is left for the
test around it. -/
def isNull? : Parser (Option Bool) := do
  let saved ← checkpoint
  if ← eat (.keyword .IS) then
    let negated ← eat (.keyword .NOT)
    if ← eat (.keyword .NULL) then pure (some negated)
    else
      restore saved
      pure none
  else pure none

/-- The rest of a predicate that may be negated by a `NOT` in front of it, after that `NOT`. -/
def negatedEnd (inner : Inner) (operand : Expr) : Parser Expr := do
  match ← kind with
  | .keyword .BETWEEN => betweenEnd inner true operand
  | .keyword .IN => inEnd inner true operand
  | .keyword .LIKE => likeEnd inner true operand
  | _ => unexpected [.keyword .BETWEEN, .keyword .IN, .keyword .LIKE]

def predicateEnd (inner : Inner) (operand : Expr) : Parser Expr := do
  match ← isNull? with
  | some negated => pure (.is .null negated operand)
  | none =>
      match ← kind with
      | .keyword .NOT => do
          advance
          negatedEnd inner operand
      | .keyword .BETWEEN => betweenEnd inner false operand
      | .keyword .IN => inEnd inner false operand
      | .keyword .LIKE => likeEnd inner false operand
      | _ => pure operand

def predicate (inner : Inner) : Parser Expr := do
  if ← eat (.keyword .EXISTS) then .existsQuery <$> enclosed (inner .query)
  else
    let k ← kind
    if rowStart.contains k then
      let left ← row inner
      match ← take? BinaryOp.comparison? with
      | some op => comparisonEnd inner left op
      | none => predicateEnd inner left
    else unexpected conditionStart

def truthValue? : Kind → Option TruthValue
  | .keyword .TRUE => some .true
  | .keyword .FALSE => some .false
  | .keyword .UNKNOWN => some .unknown
  | _ => none

def afterIs (negated : Bool) : List Kind :=
  (if negated then [] else [.keyword .NOT]) ++
    [.keyword .TRUE, .keyword .FALSE, .keyword .UNKNOWN, .keyword .NULL]

def truthTest (inner : Inner) : Parser Expr := do
  let operand ← predicate inner
  if ← eat (.keyword .IS) then
    let negated ← eat (.keyword .NOT)
    match ← take? truthValue? with
    | some value => pure (.is value negated operand)
    | none => unexpected (afterIs negated)
  else pure operand

def negation (inner : Inner) : Parser Expr := do
  if ← eat (.keyword .NOT) then .unary .not <$> inner .negated
  else truthTest inner

def and? : Kind → Option BinaryOp
  | .keyword .AND => some .and
  | _ => none

def or? : Kind → Option BinaryOp
  | .keyword .OR => some .or
  | _ => none

def condition (inner : Inner) : Parser Expr := chain or? (chain and? (negation inner))

end SelectSyntax.Parse
