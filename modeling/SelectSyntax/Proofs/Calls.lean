import SelectSyntax.Session

/-!
The rules as functions that call one another. Each call of a rule takes one unit of fuel from those nested
in it, and a loop of a rule has one turn for each token left. A parser that runs out has no outcome, which is
no failure: no other reading is tried after it.
-/

set_option autoImplicit false
set_option relaxedAutoImplicit false

namespace SelectSyntax.Parse

open SyntaxTree (BinaryOp Body Expr Grouping JoinKind NamedQuery OrderItem Projection Quantifier SelectBlock
  SetOp SetQuantifier Statement TableRef WithClause)
open Token (Kind)

/-- A parser that may run out. -/
def Metered (α : Type) := State → Option (EStateM.Result Failure State α)

namespace Metered

variable {α β : Type}

def runsOut : Metered α := fun _ => none

def lift (p : Parser α) : Metered α := fun s => some (p s)

instance : Monad Metered where
  pure a := fun s => some (.ok a s)
  bind m f := fun s =>
    match m s with
    | none => none
    | some (.ok a t) => f a t
    | some (.error e t) => some (.error e t)

instance : MonadLift Parser Metered := ⟨lift⟩

/-- Items one after another until there is none, in at most so many turns. -/
def manyWithin (item? : Metered (Option α)) : Nat → Metered (List α)
  | 0 => runsOut
  | n + 1 => do
      match ← item? with
      | none => pure []
      | some a => do
          let rest ← manyWithin item? n
          pure (a :: rest)

def many (item? : Metered (Option α)) : Metered (List α) := fun s =>
  manyWithin item? (s.cursor.remaining + 1) s

def after? (k : Kind) (item : Metered α) : Metered (Option α) := do
  if ← eat k then
    let a ← item
    pure (some a)
  else pure none

def separated (k : Kind) (item : Metered α) : Metered (List α) := do
  let first ← item
  let rest ← many (after? k item)
  pure (first :: rest)

def commaList (item : Metered α) : Metered (List α) := separated .comma item

def tail? (operator : Kind → Option BinaryOp) (operand : Metered Expr) :
    Metered (Option (BinaryOp × Expr)) := do
  match ← take? operator with
  | none => pure none
  | some op => do
      let right ← operand
      pure (some (op, right))

def chain (operator : Kind → Option BinaryOp) (operand : Metered Expr) : Metered Expr := do
  let first ← operand
  let rest ← many (tail? operator operand)
  pure (rest.foldl (fun left next => .binary next.1 left next.2) first)

def closed (inside : Metered α) : Metered α := do
  let a ← inside
  expect .rightParen
  pure a

def enclosed (inside : Metered α) : Metered α := do
  expect .leftParen
  closed inside

/-- The first of two readings that succeeds, each from the same place. The second one is tried only after a
failure of the first. -/
def prefer (first second : Metered α) : Metered α := fun s =>
  match first s with
  | none => none
  | some (.ok a t) => some (.ok a t)
  | some (.error e u) =>
      match second (u.restore s.checkpoint) with
      | none => none
      | some (.ok a t) => some (.ok a t)
      | some (.error f t) => some (.error (e.further f) t)

def parenthesized (query : Metered Statement) (other : Metered α) : Metered (Statement ⊕ α) := do
  expect .leftParen
  let k ← kind
  if startsQuery k then prefer (Sum.inl <$> closed query) (Sum.inr <$> closed other)
  else Sum.inr <$> closed other

def pathWithin : Nat → Metered (List String × Bool)
  | 0 => runsOut
  | n + 1 => do
      if ← eat .star then pure ([], true)
      else
        match ← identifier? with
        | none => unexpected [.identifier, .star]
        | some name =>
            if ← eat .dot then
              let rest ← pathWithin n
              pure (name :: rest.1, rest.2)
            else pure ([name], false)

def path : Metered (List String × Bool) := fun s => pathWithin (s.cursor.remaining + 1) s

def identifierList : Metered (List String) := do
  expect .leftParen
  let names ← commaList (lift identifier)
  if ← eat .rightParen then pure names
  else unexpected [.comma, .rightParen]

def setTail? (operator : Kind → Option SetOp) (quantifier : Metered SetQuantifier) (operand : Metered Body) :
    Metered (Option (SetOp × SetQuantifier × Body)) := do
  match ← take? operator with
  | none => pure none
  | some op => do
      let q ← quantifier
      let right ← operand
      pure (some (op, q, right))

def setChain (operator : Kind → Option SetOp) (quantifier : Metered SetQuantifier) (operand : Metered Body) :
    Metered Body := do
  let first ← operand
  let rest ← many (setTail? operator quantifier operand)
  pure (rest.foldl (fun left next => .setOp next.1 next.2.1 left next.2.2) first)

end Metered

/-- The rules, with what they are called with. A construct is entered through a rule of its own, which opens
the level of it. -/
inductive Rule where
  | whole (requireEnd : Bool)
  | construct (e : Entry)
  | query
  | withClause?
  | namedQuery
  | orderBy
  | body
  | intersections
  | bodyPrimary
  | selectBlock
  | projection
  | condition
  | conjunction
  | negation
  | truthTest
  | predicate
  | betweenEnd (negated : Bool) (operand : Expr)
  | inEnd (negated : Bool) (operand : Expr)
  | likeEnd (negated : Bool) (operand : Expr)
  | conditions
  | row
  | product
  | power
  | primary
  | columnOrCall
  | arguments
  | caseExpr
  | values
  | table
  | tablePrimary
  | tableInParens
  | joinKind?
  | optionalAlias
  | requiredAlias
  | identifierList
  | setQuantifier

namespace Rule

/-- What a rule reads. -/
abbrev Result : Rule → Type
  | .whole _ | .query => Statement
  | .construct e => e.Result
  | .withClause? => Option WithClause
  | .namedQuery => NamedQuery
  | .orderBy => List OrderItem
  | .body | .intersections | .bodyPrimary => Body
  | .selectBlock => SelectBlock
  | .projection => Projection
  | .condition | .conjunction | .negation | .truthTest | .predicate => Expr
  | .betweenEnd _ _ | .inEnd _ _ | .likeEnd _ _ => Expr
  | .conditions | .arguments => List Expr
  | .row | .product | .power | .primary | .columnOrCall | .caseExpr => Expr
  | .values => Statement ⊕ List Expr
  | .table | .tablePrimary => TableRef
  | .tableInParens => Statement ⊕ TableRef
  | .joinKind? => Option JoinKind
  | .optionalAlias => Option String
  | .requiredAlias => String
  | .identifierList => List String
  | .setQuantifier => SetQuantifier

/-- The rules that may read nothing. -/
def optional : Rule → Bool
  | .withClause? | .orderBy | .joinKind? | .optionalAlias | .setQuantifier => true
  | _ => false

/-- A bound on how deep the calls of a rule nest before a token is taken. -/
def rank : Rule → Nat
  | .whole _ | .conditions => 12
  | .construct _ => 11
  | .condition => 10
  | .conjunction => 9
  | .negation => 8
  | .truthTest => 7
  | .predicate | .projection => 6
  | .row => 5
  | .product | .query => 4
  | .power | .body => 3
  | .primary | .intersections | .table => 2
  | .columnOrCall | .bodyPrimary | .namedQuery | .tablePrimary => 1
  | _ => 0

theorem rank_le (r : Rule) : r.rank ≤ 12 := by
  cases r <;> simp [rank]

/-- The parser of a rule, over the constructs one level further in. -/
def parser (inner : Inner) : (r : Rule) → Parser r.Result
  | .whole requireEnd => Parse.wholeStatement requireEnd inner
  | .construct e => inner e
  | .query => Parse.query inner
  | .withClause? => Parse.withClause? inner
  | .namedQuery => Parse.namedQuery inner
  | .orderBy => Parse.orderBy inner
  | .body => Parse.body inner
  | .intersections => Parse.setChain intersect? (Parse.bodyPrimary inner)
  | .bodyPrimary => Parse.bodyPrimary inner
  | .selectBlock => Parse.selectBlock inner
  | .projection => Parse.projection inner
  | .condition => Parse.condition inner
  | .conjunction => Parse.chain and? (Parse.negation inner)
  | .negation => Parse.negation inner
  | .truthTest => Parse.truthTest inner
  | .predicate => Parse.predicate inner
  | .betweenEnd negated operand => Parse.betweenEnd inner negated operand
  | .inEnd negated operand => Parse.inEnd inner negated operand
  | .likeEnd negated operand => Parse.likeEnd inner negated operand
  | .conditions => Parse.conditions inner
  | .row => Parse.row inner
  | .product => Parse.chain BinaryOp.product? (Parse.chain power? (Parse.primary inner (Parse.row inner)))
  | .power => Parse.chain power? (Parse.primary inner (Parse.row inner))
  | .primary => Parse.primary inner (Parse.row inner)
  | .columnOrCall => Parse.columnOrCall inner
  | .arguments => Parse.arguments inner
  | .caseExpr => Parse.caseExpr inner (Parse.row inner)
  | .values => Parse.parenthesized (inner .query) (Parse.conditions inner)
  | .table => Parse.table inner
  | .tablePrimary => Parse.tablePrimary inner
  | .tableInParens => Parse.parenthesized (inner .query) (inner .table)
  | .joinKind? => Parse.joinKind?
  | .optionalAlias => Parse.optionalAlias
  | .requiredAlias => Parse.requiredAlias
  | .identifierList => Parse.identifierList
  | .setQuantifier => Parse.setQuantifier

end Rule

abbrev Calls := (r : Rule) → Metered r.Result

namespace Metered

variable (call : Calls)

def conditions : Metered (List Expr) := commaList (call (.construct .condition))

def arguments : Metered (List Expr) := do
  expect .leftParen
  if ← eat .rightParen then pure []
  else
    let args ← call .conditions
    if ← eat .rightParen then pure args
    else unexpected [.comma, .rightParen]

def columnOrCall : Metered Expr := do
  let names ← path
  let k ← kind
  if !names.2 && k == .leftParen then
    let args ← call .arguments
    pure (.call names.1 args)
  else pure (.column names.1 names.2)

def branch? : Metered (Option (Expr × Expr)) := do
  if ← eat (.keyword .WHEN) then
    let condition ← call (.construct .condition)
    expect (.keyword .THEN)
    let result ← call (.construct .condition)
    pure (some (condition, result))
  else pure none

def caseEnd (operand : Option Expr) (branches : List (Expr × Expr)) : Metered Expr := do
  let otherwise ← after? (.keyword .ELSE) (call (.construct .condition))
  if ← eat (.keyword .END) then pure (.case operand branches otherwise)
  else if otherwise.isSome then unexpected [.keyword .END]
  else unexpected [.keyword .WHEN, .keyword .ELSE, .keyword .END]

def caseExpr : Metered Expr := do
  expect (.keyword .CASE)
  let k ← kind
  let operand ← if k = .keyword .WHEN then pure none else some <$> call .row
  let branches ← many (branch? call)
  if branches.isEmpty then unexpected [.keyword .WHEN]
  else caseEnd call operand branches

def primary : Metered Expr := do
  let t ← token
  match t.kind with
  | .number => do
      advance
      pure (.number t.raw)
  | .string => do
      advance
      pure (.string t.value)
  | .keyword .TRUE => do
      advance
      pure (.bool true)
  | .keyword .FALSE => do
      advance
      pure (.bool false)
  | .keyword .NULL => do
      advance
      pure .null
  | .question => .parameter <$> lift parameter
  | .plus => do
      advance
      .unary .plus <$> call (.construct .signed)
  | .minus => do
      advance
      .unary .neg <$> call (.construct .signed)
  | .keyword .CASE => call .caseExpr
  | .identifier | .star => call .columnOrCall
  | .leftParen => ofParenthesis <$> call .values
  | .keyword k =>
      if k.isFunctionName then do
        advance
        .call [t.raw] <$> call .arguments
      else unexpected rowStart
  | _ => unexpected rowStart

def comparisonEnd (left : Expr) (op : BinaryOp) : Metered Expr := do
  match ← take? Quantifier.ofKind? with
  | some quantifier => .quantified op quantifier left <$> enclosed (call (.construct .query))
  | none => .binary op left <$> call .row

def betweenEnd (negated : Bool) (operand : Expr) : Metered Expr := do
  expect (.keyword .BETWEEN)
  let low ← call .row
  expect (.keyword .AND)
  let high ← call .row
  pure (.between negated operand low high)

def inEnd (negated : Bool) (operand : Expr) : Metered Expr := do
  expect (.keyword .IN)
  match ← call .values with
  | .inl query => pure (.inQuery negated operand query)
  | .inr values => pure (.inValues negated operand values)

def likeEnd (negated : Bool) (operand : Expr) : Metered Expr := do
  expect (.keyword .LIKE)
  let pattern ← call .row
  let escape ← after? (.keyword .ESCAPE) (call .row)
  pure (.like negated operand pattern escape)

def negatedEnd (operand : Expr) : Metered Expr := do
  match ← kind with
  | .keyword .BETWEEN => call (.betweenEnd true operand)
  | .keyword .IN => call (.inEnd true operand)
  | .keyword .LIKE => call (.likeEnd true operand)
  | _ => unexpected [.keyword .BETWEEN, .keyword .IN, .keyword .LIKE]

def predicateEnd (operand : Expr) : Metered Expr := do
  match ← isNull? with
  | some negated => pure (.is .null negated operand)
  | none =>
      match ← kind with
      | .keyword .NOT => do
          advance
          negatedEnd call operand
      | .keyword .BETWEEN => call (.betweenEnd false operand)
      | .keyword .IN => call (.inEnd false operand)
      | .keyword .LIKE => call (.likeEnd false operand)
      | _ => pure operand

def predicate : Metered Expr := do
  if ← eat (.keyword .EXISTS) then .existsQuery <$> enclosed (call (.construct .query))
  else
    let k ← kind
    if rowStart.contains k then
      let left ← call .row
      match ← take? BinaryOp.comparison? with
      | some op => comparisonEnd call left op
      | none => predicateEnd call left
    else unexpected conditionStart

def truthTest : Metered Expr := do
  let operand ← call .predicate
  if ← eat (.keyword .IS) then
    let negated ← eat (.keyword .NOT)
    match ← take? truthValue? with
    | some value => pure (.is value negated operand)
    | none => unexpected (afterIs negated)
  else pure operand

def negation : Metered Expr := do
  if ← eat (.keyword .NOT) then .unary .not <$> call (.construct .negated)
  else call .truthTest

def optionalColumns : Metered (List String) := do
  let k ← kind
  if k = .leftParen then call .identifierList else pure []

def tablePrimary : Metered TableRef := do
  match ← kind with
  | .identifier => do
      let names ← separated .dot (lift identifier)
      let aliasName ← call .optionalAlias
      pure (.relation names aliasName)
  | .leftParen => do
      match ← call .tableInParens with
      | .inl query => do
          let aliasName ← call .requiredAlias
          let columns ← optionalColumns call
          pure (.derived query aliasName columns)
      | .inr table => pure table
  | _ => unexpected [.identifier, .leftParen]

def joinCondition (joinKind : JoinKind) : Metered (Option Expr) := do
  if joinKind.requiresCondition then
    expect (.keyword .ON)
    some <$> call (.construct .condition)
  else
    let k ← kind
    if k = .keyword .ON then fail (.notAllowed (onNotAllowed joinKind)) else pure none

def join? : Metered (Option (JoinKind × TableRef × Option Expr)) := do
  match ← call .joinKind? with
  | none => pure none
  | some joinKind => do
      let right ← call .tablePrimary
      let on ← joinCondition call joinKind
      pure (some (joinKind, right, on))

def table : Metered TableRef := do
  let first ← call .tablePrimary
  let joins ← many (join? call)
  pure (joins.foldl (fun left next => .join next.1 left next.2.1 next.2.2) first)

def orderItem : Metered OrderItem := do
  let e ← call .row
  let direction ← take? direction?
  pure ⟨e, direction.getD .unspecified⟩

def projection : Metered Projection := do
  let e ← call .row
  let aliasName ← call .optionalAlias
  pure ⟨e, aliasName⟩

def tables : Metered (List TableRef) := do
  if ← eat (.keyword .FROM) then commaList (call (.construct .table)) else pure []

def grouping? : Metered (Option Grouping) := do
  if ← eat (.keyword .GROUP) then
    expect (.keyword .BY)
    let quantifier ← call .setQuantifier
    let items ← commaList (call .row)
    pure (some ⟨quantifier, items⟩)
  else pure none

def selectBlock : Metered SelectBlock := do
  expect (.keyword .SELECT)
  let quantifier ← call .setQuantifier
  let projections ← commaList (call .projection)
  let entries ← tables call
  let filter ← after? (.keyword .WHERE) (call (.construct .condition))
  let grouping ← grouping? call
  let having ← after? (.keyword .HAVING) (call (.construct .condition))
  pure ⟨quantifier, projections, entries, filter, grouping, having⟩

def bodyPrimary : Metered Body := do
  match ← kind with
  | .keyword .SELECT => .block <$> call .selectBlock
  | .leftParen => enclosed (call (.construct .body))
  | _ => unexpected [.keyword .SELECT, .leftParen]

def namedQuery : Metered NamedQuery := do
  let name ← identifier
  let columns ← optionalColumns call
  if ← eat (.keyword .AS) then
    let query ← enclosed (call (.construct .query))
    pure ⟨name, columns, query⟩
  else if columns.isEmpty then unexpected [.leftParen, .keyword .AS]
  else unexpected [.keyword .AS]

def withClause? : Metered (Option WithClause) := do
  if ← eat (.keyword .WITH) then
    let recursive ← eat (.keyword .RECURSIVE)
    let queries ← commaList (call .namedQuery)
    pure (some ⟨recursive, queries⟩)
  else pure none

def orderBy : Metered (List OrderItem) := do
  if ← eat (.keyword .ORDER) then
    expect (.keyword .BY)
    commaList (orderItem call)
  else pure []

def query : Metered Statement := do
  let withClause ← call .withClause?
  let queryBody ← call .body
  let items ← call .orderBy
  pure ⟨withClause, queryBody, items⟩

def whole (requireEnd : Bool) : Metered Statement := do
  let statement ← call (.construct .query)
  let _ ← eat .semicolon
  let k ← kind
  if requireEnd && k != .eof then unexpected [.eof]
  else pure statement

def rule : (e : Entry) → Metered e.Result
  | .query => call .query
  | .body => call .body
  | .condition => call .condition
  | .negated => call .negation
  | .signed => call .primary
  | .table => call .table

def nested {α : Type} (limit : Option Nat) (inside : Metered α) : Metered α := fun s =>
  match limit.filter fun m => m ≤ s.depth with
  | some m => some (Parse.fail (.tooDeep m) s)
  | none => (inside s.enter).map closeLevel

end Metered

namespace Rule

/-- What a rule does under a limit on nesting, given how it calls rules. -/
def step (limit : Option Nat) (call : Calls) : Calls
  | .construct e => Metered.nested limit (Metered.rule call e)
  | .whole requireEnd => Metered.whole call requireEnd
  | .query => Metered.query call
  | .withClause? => Metered.withClause? call
  | .namedQuery => Metered.namedQuery call
  | .orderBy => Metered.orderBy call
  | .body => Metered.setChain unionOrExcept? (call .setQuantifier) (call .intersections)
  | .intersections => Metered.setChain intersect? (call .setQuantifier) (call .bodyPrimary)
  | .bodyPrimary => Metered.bodyPrimary call
  | .selectBlock => Metered.selectBlock call
  | .projection => Metered.projection call
  | .condition => Metered.chain or? (call .conjunction)
  | .conjunction => Metered.chain and? (call .negation)
  | .negation => Metered.negation call
  | .truthTest => Metered.truthTest call
  | .predicate => Metered.predicate call
  | .betweenEnd negated operand => Metered.betweenEnd call negated operand
  | .inEnd negated operand => Metered.inEnd call negated operand
  | .likeEnd negated operand => Metered.likeEnd call negated operand
  | .conditions => Metered.conditions call
  | .row => Metered.chain BinaryOp.sum? (call .product)
  | .product => Metered.chain BinaryOp.product? (call .power)
  | .power => Metered.chain power? (call .primary)
  | .primary => Metered.primary call
  | .columnOrCall => Metered.columnOrCall call
  | .arguments => Metered.arguments call
  | .caseExpr => Metered.caseExpr call
  | .values => Metered.parenthesized (call (.construct .query)) (call .conditions)
  | .table => Metered.table call
  | .tablePrimary => Metered.tablePrimary call
  | .tableInParens => Metered.parenthesized (call (.construct .query)) (call (.construct .table))
  | .joinKind? => Metered.lift Parse.joinKind?
  | .optionalAlias => Metered.lift Parse.optionalAlias
  | .requiredAlias => Metered.lift Parse.requiredAlias
  | .identifierList => Metered.identifierList
  | .setQuantifier => Metered.lift Parse.setQuantifier

/-- The outcome of a rule, where calls nest no deeper than the fuel lasts. -/
def evaluate (limit : Option Nat) : Nat → Calls
  | 0 => fun _ => Metered.runsOut
  | fuel + 1 => step limit (evaluate limit fuel)

end Rule

end SelectSyntax.Parse
