import SelectSyntax.SyntaxTree.Node

/-!
Binding levels. A level names the tier of the grammar that produces an expression; higher binds
tighter. An operand is written without parentheses when its level is at least that of the tier that
reads it.
-/

set_option autoImplicit false
set_option relaxedAutoImplicit false

namespace SelectSyntax.Render

open SyntaxTree

/-- A tier of the grammar by number, loosest first. -/
abbrev Level := Nat

namespace Level

def disjunction : Level := 1

def conjunction : Level := 2

def negation : Level := 3

def truthTest : Level := 4

/-- Comparisons and the other predicates; they do not chain. -/
def predicate : Level := 5

/-- Sums and concatenations: everything that a row expression accepts. -/
def sum : Level := 6

def product : Level := 7

def power : Level := 8

def primary : Level := 9

def ofBinary : BinaryOp → Level
  | .or => disjunction
  | .and => conjunction
  | .eq | .notEq | .lt | .ltEq | .gt | .gtEq => predicate
  | .add | .sub | .concat => sum
  | .mul | .div | .mod => product
  | .pow => power

def ofExpr : Expr → Level
  | .binary op _ _ => ofBinary op
  | .unary .not _ => negation
  | .unary _ _ => primary
  | .is .null _ _ => predicate
  | .is _ _ _ => truthTest
  | .quantified .. | .between .. | .inQuery .. | .inValues .. | .like .. | .existsQuery _ =>
      predicate
  | _ => primary

/-- The levels that the two operands of a binary operator need: both a row expression for a
comparison, else the operator's own level on the left and the next one on the right. -/
def operands (op : BinaryOp) : Level × Level :=
  if op.isComparison then (sum, sum) else (ofBinary op, ofBinary op + 1)

def tested : TruthValue → Level
  | .null => sum
  | _ => predicate

def ofBody : Body → Level
  | .setOp .intersect .. => 2
  | .setOp .. => 1
  | .block _ => 3

end Level

end SelectSyntax.Render
