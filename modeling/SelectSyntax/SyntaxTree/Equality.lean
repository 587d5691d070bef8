import SelectSyntax.SyntaxTree.Node

/-!
Equality of trees, decided node by node. Main statement: two trees compare as the same exactly when
they are equal.
-/

set_option autoImplicit false
set_option relaxedAutoImplicit false

namespace SelectSyntax.SyntaxTree

mutual

/-- Whether two expressions are the same tree. -/
def Expr.same : Expr → Expr → Bool
  | .binary op left right, e =>
      match e with
      | .binary op' left' right' => op == op' && left.same left' && right.same right'
      | _ => false
  | .unary op operand, e =>
      match e with
      | .unary op' operand' => op == op' && operand.same operand'
      | _ => false
  | .is value negated operand, e =>
      match e with
      | .is value' negated' operand' =>
          value == value' && negated == negated' && operand.same operand'
      | _ => false
  | .quantified op quantifier left query, e =>
      match e with
      | .quantified op' quantifier' left' query' =>
          op == op' && quantifier == quantifier' && left.same left' && query.same query'
      | _ => false
  | .between negated operand low high, e =>
      match e with
      | .between negated' operand' low' high' =>
          negated == negated' && operand.same operand' && low.same low' && high.same high'
      | _ => false
  | .inQuery negated operand query, e =>
      match e with
      | .inQuery negated' operand' query' =>
          negated == negated' && operand.same operand' && query.same query'
      | _ => false
  | .inValues negated operand values, e =>
      match e with
      | .inValues negated' operand' values' =>
          negated == negated' && operand.same operand' && Expr.sameList values values'
      | _ => false
  | .like negated operand pattern escape, e =>
      match e with
      | .like negated' operand' pattern' escape' =>
          negated == negated' && operand.same operand' && pattern.same pattern' &&
            Expr.sameOption escape escape'
      | _ => false
  | .existsQuery query, e =>
      match e with
      | .existsQuery query' => query.same query'
      | _ => false
  | .bool value, e =>
      match e with
      | .bool value' => value == value'
      | _ => false
  | .null, e =>
      match e with
      | .null => true
      | _ => false
  | .number text, e =>
      match e with
      | .number text' => text == text'
      | _ => false
  | .string value, e =>
      match e with
      | .string value' => value == value'
      | _ => false
  | .parameter position, e =>
      match e with
      | .parameter position' => position == position'
      | _ => false
  | .column path wildcard, e =>
      match e with
      | .column path' wildcard' => path == path' && wildcard == wildcard'
      | _ => false
  | .call name arguments, e =>
      match e with
      | .call name' arguments' => name == name' && Expr.sameList arguments arguments'
      | _ => false
  | .list items, e =>
      match e with
      | .list items' => Expr.sameList items items'
      | _ => false
  | .subquery query, e =>
      match e with
      | .subquery query' => query.same query'
      | _ => false
  | .case operand branches otherwise, e =>
      match e with
      | .case operand' branches' otherwise' =>
          Expr.sameOption operand operand' && Expr.sameBranches branches branches' &&
            Expr.sameOption otherwise otherwise'
      | _ => false

def Expr.sameList : List Expr → List Expr → Bool
  | [], es => es.isEmpty
  | e :: rest, es =>
      match es with
      | [] => false
      | e' :: rest' => e.same e' && Expr.sameList rest rest'

def Expr.sameOption : Option Expr → Option Expr → Bool
  | none, o => o.isNone
  | some e, o =>
      match o with
      | none => false
      | some e' => e.same e'

def Expr.sameBranches : List (Expr × Expr) → List (Expr × Expr) → Bool
  | [], bs => bs.isEmpty
  | (condition, result) :: rest, bs =>
      match bs with
      | [] => false
      | (condition', result') :: rest' =>
          condition.same condition' && result.same result' && Expr.sameBranches rest rest'

def Projection.sameList : List Projection → List Projection → Bool
  | [], ps => ps.isEmpty
  | ⟨expr, aliasName⟩ :: rest, ps =>
      match ps with
      | [] => false
      | ⟨expr', aliasName'⟩ :: rest' =>
          expr.same expr' && aliasName == aliasName' && Projection.sameList rest rest'

def OrderItem.sameList : List OrderItem → List OrderItem → Bool
  | [], os => os.isEmpty
  | ⟨expr, direction⟩ :: rest, os =>
      match os with
      | [] => false
      | ⟨expr', direction'⟩ :: rest' =>
          expr.same expr' && direction == direction' && OrderItem.sameList rest rest'

def Grouping.sameOption : Option Grouping → Option Grouping → Bool
  | none, o => o.isNone
  | some ⟨quantifier, items⟩, o =>
      match o with
      | none => false
      | some ⟨quantifier', items'⟩ => quantifier == quantifier' && Expr.sameList items items'

def TableRef.same : TableRef → TableRef → Bool
  | .relation path aliasName, t =>
      match t with
      | .relation path' aliasName' => path == path' && aliasName == aliasName'
      | _ => false
  | .derived query aliasName columns, t =>
      match t with
      | .derived query' aliasName' columns' =>
          query.same query' && aliasName == aliasName' && columns == columns'
      | _ => false
  | .join kind left right condition, t =>
      match t with
      | .join kind' left' right' condition' =>
          kind == kind' && left.same left' && right.same right' &&
            Expr.sameOption condition condition'
      | _ => false

def TableRef.sameList : List TableRef → List TableRef → Bool
  | [], ts => ts.isEmpty
  | table :: rest, ts =>
      match ts with
      | [] => false
      | table' :: rest' => table.same table' && TableRef.sameList rest rest'

def SelectBlock.same : SelectBlock → SelectBlock → Bool
  | ⟨quantifier, projections, tables, filter, grouping, having⟩, b =>
      quantifier == b.quantifier && Projection.sameList projections b.projections &&
        TableRef.sameList tables b.tables && Expr.sameOption filter b.filter &&
        Grouping.sameOption grouping b.grouping && Expr.sameOption having b.having

def Body.same : Body → Body → Bool
  | .setOp op quantifier left right, b =>
      match b with
      | .setOp op' quantifier' left' right' =>
          op == op' && quantifier == quantifier' && left.same left' && right.same right'
      | _ => false
  | .block block, b =>
      match b with
      | .block block' => block.same block'
      | _ => false

def NamedQuery.sameList : List NamedQuery → List NamedQuery → Bool
  | [], qs => qs.isEmpty
  | ⟨name, columns, query⟩ :: rest, qs =>
      match qs with
      | [] => false
      | ⟨name', columns', query'⟩ :: rest' =>
          name == name' && columns == columns' && query.same query' &&
            NamedQuery.sameList rest rest'

def WithClause.sameOption : Option WithClause → Option WithClause → Bool
  | none, o => o.isNone
  | some ⟨recursive, queries⟩, o =>
      match o with
      | none => false
      | some ⟨recursive', queries'⟩ =>
          recursive == recursive' && NamedQuery.sameList queries queries'

def Statement.same : Statement → Statement → Bool
  | ⟨withClause, body, orderBy⟩, s =>
      WithClause.sameOption withClause s.withClause && body.same s.body &&
        OrderItem.sameList orderBy s.orderBy

end

mutual

/-- Two expressions compare as the same exactly when they are equal. -/
theorem Expr.same_iff : ∀ a b : Expr, a.same b = true ↔ a = b
  | .binary _ left right, b => by
      cases b <;> simp [Expr.same, Expr.same_iff left, Expr.same_iff right, and_assoc]
  | .unary _ operand, b => by cases b <;> simp [Expr.same, Expr.same_iff operand]
  | .is _ _ operand, b => by cases b <;> simp [Expr.same, Expr.same_iff operand, and_assoc]
  | .quantified _ _ left query, b => by
      cases b <;> simp [Expr.same, Expr.same_iff left, Statement.same_iff query, and_assoc]
  | .between _ operand low high, b => by
      cases b <;>
        simp [Expr.same, Expr.same_iff operand, Expr.same_iff low, Expr.same_iff high, and_assoc]
  | .inQuery _ operand query, b => by
      cases b <;> simp [Expr.same, Expr.same_iff operand, Statement.same_iff query, and_assoc]
  | .inValues _ operand values, b => by
      cases b <;> simp [Expr.same, Expr.same_iff operand, Expr.sameList_iff values, and_assoc]
  | .like _ operand pattern escape, b => by
      cases b <;>
        simp [Expr.same, Expr.same_iff operand, Expr.same_iff pattern,
          Expr.sameOption_iff escape, and_assoc]
  | .existsQuery query, b => by cases b <;> simp [Expr.same, Statement.same_iff query]
  | .bool _, b => by cases b <;> simp [Expr.same]
  | .null, b => by cases b <;> simp [Expr.same]
  | .number _, b => by cases b <;> simp [Expr.same]
  | .string _, b => by cases b <;> simp [Expr.same]
  | .parameter _, b => by cases b <;> simp [Expr.same]
  | .column _ _, b => by cases b <;> simp [Expr.same]
  | .call _ arguments, b => by cases b <;> simp [Expr.same, Expr.sameList_iff arguments]
  | .list items, b => by cases b <;> simp [Expr.same, Expr.sameList_iff items]
  | .subquery query, b => by cases b <;> simp [Expr.same, Statement.same_iff query]
  | .case operand branches otherwise, b => by
      cases b <;>
        simp [Expr.same, Expr.sameOption_iff operand, Expr.sameBranches_iff branches,
          Expr.sameOption_iff otherwise, and_assoc]

private theorem Expr.sameList_iff : ∀ a b : List Expr, Expr.sameList a b = true ↔ a = b
  | [], b => by cases b <;> simp [Expr.sameList]
  | e :: rest, b => by
      cases b <;> simp [Expr.sameList, Expr.same_iff e, Expr.sameList_iff rest]

private theorem Expr.sameOption_iff : ∀ a b : Option Expr, Expr.sameOption a b = true ↔ a = b
  | none, b => by cases b <;> simp [Expr.sameOption]
  | some e, b => by cases b <;> simp [Expr.sameOption, Expr.same_iff e]

private theorem Expr.sameBranches_iff :
    ∀ a b : List (Expr × Expr), Expr.sameBranches a b = true ↔ a = b
  | [], b => by cases b <;> simp [Expr.sameBranches]
  | (condition, result) :: rest, b => by
      rcases b with _ | ⟨⟨_, _⟩, _⟩ <;>
        simp [Expr.sameBranches, Expr.same_iff condition, Expr.same_iff result,
          Expr.sameBranches_iff rest]

private theorem Projection.sameList_iff :
    ∀ a b : List Projection, Projection.sameList a b = true ↔ a = b
  | [], b => by cases b <;> simp [Projection.sameList]
  | ⟨expr, _⟩ :: rest, b => by
      rcases b with _ | ⟨⟨_, _⟩, _⟩ <;>
        simp [Projection.sameList, Expr.same_iff expr, Projection.sameList_iff rest]

private theorem OrderItem.sameList_iff :
    ∀ a b : List OrderItem, OrderItem.sameList a b = true ↔ a = b
  | [], b => by cases b <;> simp [OrderItem.sameList]
  | ⟨expr, _⟩ :: rest, b => by
      rcases b with _ | ⟨⟨_, _⟩, _⟩ <;>
        simp [OrderItem.sameList, Expr.same_iff expr, OrderItem.sameList_iff rest]

private theorem Grouping.sameOption_iff :
    ∀ a b : Option Grouping, Grouping.sameOption a b = true ↔ a = b
  | none, b => by cases b <;> simp [Grouping.sameOption]
  | some ⟨_, items⟩, b => by
      rcases b with _ | ⟨_, _⟩ <;> simp [Grouping.sameOption, Expr.sameList_iff items]

theorem TableRef.same_iff : ∀ a b : TableRef, a.same b = true ↔ a = b
  | .relation _ _, b => by cases b <;> simp [TableRef.same]
  | .derived query _ _, b => by
      cases b <;> simp [TableRef.same, Statement.same_iff query, and_assoc]
  | .join _ left right condition, b => by
      cases b <;>
        simp [TableRef.same, TableRef.same_iff left, TableRef.same_iff right,
          Expr.sameOption_iff condition, and_assoc]

private theorem TableRef.sameList_iff :
    ∀ a b : List TableRef, TableRef.sameList a b = true ↔ a = b
  | [], b => by cases b <;> simp [TableRef.sameList]
  | table :: rest, b => by
      cases b <;> simp [TableRef.sameList, TableRef.same_iff table, TableRef.sameList_iff rest]

private theorem SelectBlock.same_iff : ∀ a b : SelectBlock, a.same b = true ↔ a = b
  | ⟨_, projections, tables, filter, grouping, having⟩, ⟨_, _, _, _, _, _⟩ => by
      simp [SelectBlock.same, Projection.sameList_iff projections, TableRef.sameList_iff tables,
        Expr.sameOption_iff filter, Grouping.sameOption_iff grouping,
        Expr.sameOption_iff having, and_assoc]

theorem Body.same_iff : ∀ a b : Body, a.same b = true ↔ a = b
  | .setOp _ _ left right, b => by
      cases b <;> simp [Body.same, Body.same_iff left, Body.same_iff right, and_assoc]
  | .block block, b => by cases b <;> simp [Body.same, SelectBlock.same_iff block]

private theorem NamedQuery.sameList_iff :
    ∀ a b : List NamedQuery, NamedQuery.sameList a b = true ↔ a = b
  | [], b => by cases b <;> simp [NamedQuery.sameList]
  | ⟨_, _, query⟩ :: rest, b => by
      rcases b with _ | ⟨⟨_, _, _⟩, _⟩ <;>
        simp [NamedQuery.sameList, Statement.same_iff query, NamedQuery.sameList_iff rest,
          and_assoc]

private theorem WithClause.sameOption_iff :
    ∀ a b : Option WithClause, WithClause.sameOption a b = true ↔ a = b
  | none, b => by cases b <;> simp [WithClause.sameOption]
  | some ⟨_, queries⟩, b => by
      rcases b with _ | ⟨_, _⟩ <;> simp [WithClause.sameOption, NamedQuery.sameList_iff queries]

theorem Statement.same_iff : ∀ a b : Statement, a.same b = true ↔ a = b
  | ⟨withClause, body, orderBy⟩, ⟨_, _, _⟩ => by
      simp [Statement.same, WithClause.sameOption_iff withClause, Body.same_iff body,
        OrderItem.sameList_iff orderBy, and_assoc]

end

instance : DecidableEq Expr := fun a b => decidable_of_iff (a.same b = true) (Expr.same_iff a b)

instance : DecidableEq TableRef := fun a b =>
  decidable_of_iff (a.same b = true) (TableRef.same_iff a b)

instance : DecidableEq Body := fun a b => decidable_of_iff (a.same b = true) (Body.same_iff a b)

instance : DecidableEq Statement := fun a b =>
  decidable_of_iff (a.same b = true) (Statement.same_iff a b)

end SelectSyntax.SyntaxTree
