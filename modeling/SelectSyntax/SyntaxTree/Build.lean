import SelectSyntax.SyntaxTree.Node

/-!
Building trees by hand.
-/

set_option autoImplicit false
set_option relaxedAutoImplicit false

namespace SelectSyntax.SyntaxTree

namespace Expr

def named (name : String) : Expr := .column [name] false

def qualified (table name : String) : Expr := .column [table, name] false

def star : Expr := .column [] true

def equals (left right : Expr) : Expr := .binary .eq left right

def exceeds (left right : Expr) : Expr := .binary .gt left right

def both (left right : Expr) : Expr := .binary .and left right

def either (left right : Expr) : Expr := .binary .or left right

def isNull (operand : Expr) : Expr := .is .null false operand

def within (operand low high : Expr) : Expr := .between false operand low high

def oneOf (operand : Expr) (values : List Expr) : Expr := .inValues false operand values

end Expr

namespace TableRef

def named (name : String) : TableRef := .relation [name] none

def aliased (name aliasName : String) : TableRef := .relation [name] (some aliasName)

end TableRef

end SelectSyntax.SyntaxTree
