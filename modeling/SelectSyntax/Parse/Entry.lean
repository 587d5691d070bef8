import SelectSyntax.Parse.Basic
import SelectSyntax.SyntaxTree.Node

/-!
The constructs whose nesting is counted. Each of them opens one more level, and a rule reaches them
only one level further in.
-/

set_option autoImplicit false
set_option relaxedAutoImplicit false

namespace SelectSyntax.Parse

open SyntaxTree (Expr Statement Body TableRef)

/-- The constructs that open a level of nesting: a whole query, a query body in parentheses, a search
condition, the operand of `NOT`, the operand of a sign, and a table reference. -/
inductive Entry where
  | query
  | body
  | condition
  | negated
  | signed
  | table
  deriving DecidableEq, Repr

namespace Entry

abbrev Result : Entry → Type
  | .query => Statement
  | .body => Body
  | .condition | .negated | .signed => Expr
  | .table => TableRef

end Entry

/-- Parsers of the constructs one level further in. -/
abbrev Inner := (e : Entry) → Parser e.Result

end SelectSyntax.Parse
