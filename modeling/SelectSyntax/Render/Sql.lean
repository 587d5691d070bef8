import SelectSyntax.Render.Pieces

/-!
Trees as text.
-/

set_option autoImplicit false
set_option relaxedAutoImplicit false

namespace SelectSyntax.SyntaxTree

open Render (Piece)

def Expr.toSql (e : Expr) : String := Piece.join (Render.expr e)

def TableRef.toSql (t : TableRef) : String := Piece.join (Render.tableRef t)

def Body.toSql (b : Body) : String := Piece.join (Render.body b)

def Statement.toSql (s : Statement) : String := Piece.join (Render.statement s)

end SelectSyntax.SyntaxTree
