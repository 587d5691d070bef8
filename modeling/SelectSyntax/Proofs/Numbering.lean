import SelectSyntax.SyntaxTree.Node
import SelectSyntax.Parse.Entry

/-!
The numbers of parameters. Shifting a tree adds to the number of each of its parameters and leaves all else
as it is.
-/

set_option autoImplicit false
set_option relaxedAutoImplicit false

namespace SelectSyntax.SyntaxTree

mutual

/-- An expression with the number of each parameter raised. -/
def Expr.shift (k : Nat) : Expr → Expr
  | .binary op left right => .binary op (left.shift k) (right.shift k)
  | .unary op operand => .unary op (operand.shift k)
  | .is value negated operand => .is value negated (operand.shift k)
  | .quantified op quantifier left query => .quantified op quantifier (left.shift k) (query.shift k)
  | .between negated operand low high => .between negated (operand.shift k) (low.shift k) (high.shift k)
  | .inQuery negated operand query => .inQuery negated (operand.shift k) (query.shift k)
  | .inValues negated operand values => .inValues negated (operand.shift k) (Expr.shiftList k values)
  | .like negated operand pattern escape =>
      .like negated (operand.shift k) (pattern.shift k) (Expr.shiftOption k escape)
  | .existsQuery query => .existsQuery (query.shift k)
  | .bool value => .bool value
  | .null => .null
  | .number text => .number text
  | .string value => .string value
  | .parameter position => .parameter (position + k)
  | .column path wildcard => .column path wildcard
  | .call name arguments => .call name (Expr.shiftList k arguments)
  | .list items => .list (Expr.shiftList k items)
  | .subquery query => .subquery (query.shift k)
  | .case operand branches otherwise =>
      .case (Expr.shiftOption k operand) (Expr.shiftBranches k branches) (Expr.shiftOption k otherwise)

def Expr.shiftList (k : Nat) : List Expr → List Expr
  | [] => []
  | e :: rest => e.shift k :: Expr.shiftList k rest

def Expr.shiftOption (k : Nat) : Option Expr → Option Expr
  | none => none
  | some e => some (e.shift k)

def Expr.shiftBranches (k : Nat) : List (Expr × Expr) → List (Expr × Expr)
  | [] => []
  | (condition, result) :: rest => (condition.shift k, result.shift k) :: Expr.shiftBranches k rest

def Projection.shift (k : Nat) : Projection → Projection
  | ⟨e, aliasName⟩ => ⟨e.shift k, aliasName⟩

def Projection.shiftList (k : Nat) : List Projection → List Projection
  | [] => []
  | p :: rest => p.shift k :: Projection.shiftList k rest

def OrderItem.shift (k : Nat) : OrderItem → OrderItem
  | ⟨e, direction⟩ => ⟨e.shift k, direction⟩

def OrderItem.shiftList (k : Nat) : List OrderItem → List OrderItem
  | [] => []
  | item :: rest => item.shift k :: OrderItem.shiftList k rest

def Grouping.shift (k : Nat) : Grouping → Grouping
  | ⟨quantifier, items⟩ => ⟨quantifier, Expr.shiftList k items⟩

def Grouping.shiftOption (k : Nat) : Option Grouping → Option Grouping
  | none => none
  | some g => some (g.shift k)

/-- A table reference with the number of each parameter raised. -/
def TableRef.shift (k : Nat) : TableRef → TableRef
  | .relation path aliasName => .relation path aliasName
  | .derived query aliasName columns => .derived (query.shift k) aliasName columns
  | .join kind left right condition =>
      .join kind (left.shift k) (right.shift k) (Expr.shiftOption k condition)

def TableRef.shiftList (k : Nat) : List TableRef → List TableRef
  | [] => []
  | t :: rest => t.shift k :: TableRef.shiftList k rest

/-- A block with the number of each parameter raised. -/
def SelectBlock.shift (k : Nat) : SelectBlock → SelectBlock
  | ⟨quantifier, projections, tables, filter, grouping, having⟩ =>
      ⟨quantifier, Projection.shiftList k projections, TableRef.shiftList k tables,
        Expr.shiftOption k filter, Grouping.shiftOption k grouping, Expr.shiftOption k having⟩

/-- A query body with the number of each parameter raised. -/
def Body.shift (k : Nat) : Body → Body
  | .setOp op quantifier left right => .setOp op quantifier (left.shift k) (right.shift k)
  | .block block => .block (block.shift k)

def NamedQuery.shift (k : Nat) : NamedQuery → NamedQuery
  | ⟨name, columns, query⟩ => ⟨name, columns, query.shift k⟩

def NamedQuery.shiftList (k : Nat) : List NamedQuery → List NamedQuery
  | [] => []
  | q :: rest => q.shift k :: NamedQuery.shiftList k rest

def WithClause.shift (k : Nat) : WithClause → WithClause
  | ⟨recursive, queries⟩ => ⟨recursive, NamedQuery.shiftList k queries⟩

def WithClause.shiftOption (k : Nat) : Option WithClause → Option WithClause
  | none => none
  | some w => some (w.shift k)

/-- A statement with the number of each parameter raised. -/
def Statement.shift (k : Nat) : Statement → Statement
  | ⟨withClause, body, orderBy⟩ =>
      ⟨WithClause.shiftOption k withClause, body.shift k, OrderItem.shiftList k orderBy⟩

end

section
variable (k : Nat)

@[simp] theorem Expr.shiftList_eq (es : List Expr) : Expr.shiftList k es = es.map (Expr.shift k) := by
  induction es with
  | nil => rfl
  | cons e es ih => rw [Expr.shiftList, ih, List.map_cons]

@[simp] theorem Expr.shiftOption_eq (o : Option Expr) : Expr.shiftOption k o = o.map (Expr.shift k) := by
  cases o <;> rfl

@[simp] theorem Expr.shiftBranches_eq (branches : List (Expr × Expr)) :
    Expr.shiftBranches k branches = branches.map (Prod.map (Expr.shift k) (Expr.shift k)) := by
  induction branches with
  | nil => rfl
  | cons b branches ih => rw [Expr.shiftBranches, ih, List.map_cons, Prod.map]

@[simp] theorem Projection.shiftList_eq (ps : List Projection) :
    Projection.shiftList k ps = ps.map (Projection.shift k) := by
  induction ps with
  | nil => rfl
  | cons p ps ih => rw [Projection.shiftList, ih, List.map_cons]

@[simp] theorem OrderItem.shiftList_eq (items : List OrderItem) :
    OrderItem.shiftList k items = items.map (OrderItem.shift k) := by
  induction items with
  | nil => rfl
  | cons item items ih => rw [OrderItem.shiftList, ih, List.map_cons]

@[simp] theorem Grouping.shiftOption_eq (o : Option Grouping) :
    Grouping.shiftOption k o = o.map (Grouping.shift k) := by
  cases o <;> rfl

@[simp] theorem TableRef.shiftList_eq (tables : List TableRef) :
    TableRef.shiftList k tables = tables.map (TableRef.shift k) := by
  induction tables with
  | nil => rfl
  | cons t tables ih => rw [TableRef.shiftList, ih, List.map_cons]

@[simp] theorem NamedQuery.shiftList_eq (queries : List NamedQuery) :
    NamedQuery.shiftList k queries = queries.map (NamedQuery.shift k) := by
  induction queries with
  | nil => rfl
  | cons q queries ih => rw [NamedQuery.shiftList, ih, List.map_cons]

@[simp] theorem WithClause.shiftOption_eq (o : Option WithClause) :
    WithClause.shiftOption k o = o.map (WithClause.shift k) := by
  cases o <;> rfl

end

mutual

theorem Expr.shift_zero : ∀ e : Expr, e.shift 0 = e
  | .binary _ left right => by simp only [Expr.shift, left.shift_zero, right.shift_zero]
  | .unary _ e | .is _ _ e => by simp only [Expr.shift, e.shift_zero]
  | .quantified _ _ e query | .inQuery _ e query => by
      simp only [Expr.shift, e.shift_zero, query.shift_zero]
  | .between _ e low high => by
      simp only [Expr.shift, e.shift_zero, low.shift_zero, high.shift_zero]
  | .inValues _ e values => by simp only [Expr.shift, e.shift_zero, Expr.shiftList_zero values]
  | .like _ e pattern escape => by
      simp only [Expr.shift, e.shift_zero, pattern.shift_zero, Expr.shiftOption_zero escape]
  | .existsQuery query | .subquery query => by simp only [Expr.shift, query.shift_zero]
  | .bool _ | .null | .number _ | .string _ | .parameter _ | .column _ _ => rfl
  | .call _ items | .list items => by simp only [Expr.shift, Expr.shiftList_zero items]
  | .case operand branches otherwise => by
      simp only [Expr.shift, Expr.shiftOption_zero operand, Expr.shiftBranches_zero branches,
        Expr.shiftOption_zero otherwise]

private theorem Expr.shiftList_zero : ∀ es : List Expr, Expr.shiftList 0 es = es
  | [] => rfl
  | e :: rest => by simp only [Expr.shiftList, e.shift_zero, Expr.shiftList_zero rest]

private theorem Expr.shiftOption_zero : ∀ o : Option Expr, Expr.shiftOption 0 o = o
  | none => rfl
  | some e => by simp only [Expr.shiftOption, e.shift_zero]

private theorem Expr.shiftBranches_zero :
    ∀ branches : List (Expr × Expr), Expr.shiftBranches 0 branches = branches
  | [] => rfl
  | (condition, result) :: rest => by
      simp only [Expr.shiftBranches, condition.shift_zero, result.shift_zero,
        Expr.shiftBranches_zero rest]

private theorem Projection.shift_zero : ∀ p : Projection, p.shift 0 = p
  | ⟨e, _⟩ => by simp only [Projection.shift, e.shift_zero]

private theorem Projection.shiftList_zero : ∀ ps : List Projection, Projection.shiftList 0 ps = ps
  | [] => rfl
  | p :: rest => by simp only [Projection.shiftList, Projection.shift_zero p, Projection.shiftList_zero rest]

private theorem OrderItem.shift_zero : ∀ item : OrderItem, item.shift 0 = item
  | ⟨e, _⟩ => by simp only [OrderItem.shift, e.shift_zero]

private theorem OrderItem.shiftList_zero : ∀ items : List OrderItem, OrderItem.shiftList 0 items = items
  | [] => rfl
  | item :: rest => by
      simp only [OrderItem.shiftList, OrderItem.shift_zero item, OrderItem.shiftList_zero rest]

private theorem Grouping.shift_zero : ∀ g : Grouping, g.shift 0 = g
  | ⟨_, items⟩ => by simp only [Grouping.shift, Expr.shiftList_zero items]

private theorem Grouping.shiftOption_zero : ∀ o : Option Grouping, Grouping.shiftOption 0 o = o
  | none => rfl
  | some g => by simp only [Grouping.shiftOption, Grouping.shift_zero g]

theorem TableRef.shift_zero : ∀ t : TableRef, t.shift 0 = t
  | .relation _ _ => rfl
  | .derived query _ _ => by simp only [TableRef.shift, query.shift_zero]
  | .join _ left right condition => by
      simp only [TableRef.shift, left.shift_zero, right.shift_zero, Expr.shiftOption_zero condition]

private theorem TableRef.shiftList_zero : ∀ tables : List TableRef, TableRef.shiftList 0 tables = tables
  | [] => rfl
  | t :: rest => by simp only [TableRef.shiftList, t.shift_zero, TableRef.shiftList_zero rest]

private theorem SelectBlock.shift_zero : ∀ b : SelectBlock, b.shift 0 = b
  | ⟨_, projections, tables, filter, grouping, having⟩ => by
      simp only [SelectBlock.shift, Projection.shiftList_zero projections, TableRef.shiftList_zero tables,
        Expr.shiftOption_zero filter, Grouping.shiftOption_zero grouping, Expr.shiftOption_zero having]

theorem Body.shift_zero : ∀ b : Body, b.shift 0 = b
  | .setOp _ _ left right => by simp only [Body.shift, left.shift_zero, right.shift_zero]
  | .block block => by simp only [Body.shift, SelectBlock.shift_zero block]

private theorem NamedQuery.shift_zero : ∀ q : NamedQuery, q.shift 0 = q
  | ⟨_, _, query⟩ => by simp only [NamedQuery.shift, query.shift_zero]

private theorem NamedQuery.shiftList_zero :
    ∀ queries : List NamedQuery, NamedQuery.shiftList 0 queries = queries
  | [] => rfl
  | q :: rest => by simp only [NamedQuery.shiftList, NamedQuery.shift_zero q, NamedQuery.shiftList_zero rest]

private theorem WithClause.shift_zero : ∀ w : WithClause, w.shift 0 = w
  | ⟨_, queries⟩ => by simp only [WithClause.shift, NamedQuery.shiftList_zero queries]

private theorem WithClause.shiftOption_zero : ∀ o : Option WithClause, WithClause.shiftOption 0 o = o
  | none => rfl
  | some w => by simp only [WithClause.shiftOption, WithClause.shift_zero w]

theorem Statement.shift_zero : ∀ s : Statement, s.shift 0 = s
  | ⟨withClause, body, orderBy⟩ => by
      simp only [Statement.shift, WithClause.shiftOption_zero withClause, body.shift_zero,
        OrderItem.shiftList_zero orderBy]

end

end SelectSyntax.SyntaxTree

namespace SelectSyntax.Parse.Entry

/-- What a construct is read as, with the number of each parameter raised. -/
def shift (k : Nat) : (e : Entry) → e.Result → e.Result
  | .query => SyntaxTree.Statement.shift k
  | .body => SyntaxTree.Body.shift k
  | .condition | .negated | .signed => SyntaxTree.Expr.shift k
  | .table => SyntaxTree.TableRef.shift k

end SelectSyntax.Parse.Entry
