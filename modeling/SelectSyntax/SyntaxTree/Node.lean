import SelectSyntax.SyntaxTree.Operator
import SelectSyntax.SyntaxTree.JoinKind

/-!
Syntax trees of queries. Search conditions and row expressions share one type: which of them may
stand where is a matter of the grammar, not of the tree. Names and strings are held without quotes,
numbers as written.
-/

set_option autoImplicit false
set_option relaxedAutoImplicit false

namespace SelectSyntax.SyntaxTree

mutual

/-- An expression or search condition. A column path is empty only for a bare `*`; a list has two
items or more; parameters are numbered from one in the order of the source. -/
inductive Expr where
  | binary (op : BinaryOp) (left right : Expr)
  | unary (op : UnaryOp) (operand : Expr)
  | is (value : TruthValue) (negated : Bool) (operand : Expr)
  | quantified (op : BinaryOp) (quantifier : Quantifier) (left : Expr) (query : Statement)
  | between (negated : Bool) (operand low high : Expr)
  | inQuery (negated : Bool) (operand : Expr) (query : Statement)
  | inValues (negated : Bool) (operand : Expr) (values : List Expr)
  | like (negated : Bool) (operand pattern : Expr) (escape : Option Expr)
  | existsQuery (query : Statement)
  | bool (value : Bool)
  | null
  | number (text : String)
  | string (value : String)
  | parameter (position : Nat)
  | column (path : List String) (wildcard : Bool)
  | call (name : List String) (arguments : List Expr)
  | list (items : List Expr)
  | subquery (query : Statement)
  | case (operand : Option Expr) (branches : List (Expr × Expr)) (otherwise : Option Expr)

structure Projection where
  expr : Expr
  aliasName : Option String

structure OrderItem where
  expr : Expr
  direction : Direction

structure Grouping where
  quantifier : SetQuantifier
  items : List Expr

/-- One entry of a `FROM`: a named table, a query under a name, or a join. -/
inductive TableRef where
  | relation (path : List String) (aliasName : Option String)
  | derived (query : Statement) (aliasName : String) (columns : List String)
  | join (kind : JoinKind) (left right : TableRef) (condition : Option Expr)

/-- A single `SELECT` block; no tables means no `FROM`. -/
structure SelectBlock where
  quantifier : SetQuantifier
  projections : List Projection
  tables : List TableRef
  filter : Option Expr
  grouping : Option Grouping
  having : Option Expr

/-- The body of a query: one block, or a set operation on two bodies. -/
inductive Body where
  | setOp (op : SetOp) (quantifier : SetQuantifier) (left right : Body)
  | block (block : SelectBlock)

structure NamedQuery where
  name : String
  columns : List String
  query : Statement

structure WithClause where
  recursive : Bool
  queries : List NamedQuery

/-- A whole query; no order items means no `ORDER BY`. -/
structure Statement where
  withClause : Option WithClause
  body : Body
  orderBy : List OrderItem

end

namespace Body

def asBlock? : Body → Option SelectBlock
  | .block b => some b
  | .setOp .. => none

end Body

end SelectSyntax.SyntaxTree
