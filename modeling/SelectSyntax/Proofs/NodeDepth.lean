import SelectSyntax.Proofs.DepthLimit

/-!
How deep the nodes of a tree nest that take a level. A tree that is read under a limit nests such nodes
no deeper than the limit, if a `CASE` is not counted on the way to its own operand: the operand is read
on the level of the `CASE` around it.
-/

set_option autoImplicit false
set_option relaxedAutoImplicit false

namespace SelectSyntax.SyntaxTree

mutual

/-- The greatest number of nodes on a path from the root that are signed or negated operands, calls,
lists, subqueries, `EXISTS` or `CASE`, where a `CASE` counts a given number of times on the way to its
operand. -/
def Expr.depth (operand : Nat) : Expr → Nat
  | .binary _ left right => max (left.depth operand) (right.depth operand)
  | .unary _ e => 1 + e.depth operand
  | .is _ _ e => e.depth operand
  | .quantified _ _ left query => max (left.depth operand) (query.depth operand)
  | .between _ e low high =>
      max (e.depth operand) (max (low.depth operand) (high.depth operand))
  | .inQuery _ e query => max (e.depth operand) (query.depth operand)
  | .inValues _ e values => max (e.depth operand) (Expr.depthList operand values)
  | .like _ e pattern escape =>
      max (e.depth operand) (max (pattern.depth operand) (Expr.depthOption operand escape))
  | .existsQuery query => 1 + query.depth operand
  | .bool _ | .null | .number _ | .string _ | .parameter _ | .column _ _ => 0
  | .call _ arguments => 1 + Expr.depthList operand arguments
  | .list items => 1 + Expr.depthList operand items
  | .subquery query => 1 + query.depth operand
  | .case e branches otherwise =>
      max (operand + Expr.depthOption operand e)
        (1 + max (Expr.depthBranches operand branches) (Expr.depthOption operand otherwise))

def Expr.depthList (operand : Nat) : List Expr → Nat
  | [] => 0
  | e :: rest => max (e.depth operand) (Expr.depthList operand rest)

def Expr.depthOption (operand : Nat) : Option Expr → Nat
  | none => 0
  | some e => e.depth operand

def Expr.depthBranches (operand : Nat) : List (Expr × Expr) → Nat
  | [] => 0
  | (condition, result) :: rest =>
      max (condition.depth operand) (max (result.depth operand) (Expr.depthBranches operand rest))

def Projection.depthList (operand : Nat) : List Projection → Nat
  | [] => 0
  | ⟨e, _⟩ :: rest => max (e.depth operand) (Projection.depthList operand rest)

def OrderItem.depthList (operand : Nat) : List OrderItem → Nat
  | [] => 0
  | ⟨e, _⟩ :: rest => max (e.depth operand) (OrderItem.depthList operand rest)

def Grouping.depthOption (operand : Nat) : Option Grouping → Nat
  | none => 0
  | some ⟨_, items⟩ => Expr.depthList operand items

def TableRef.depth (operand : Nat) : TableRef → Nat
  | .relation _ _ => 0
  | .derived query _ _ => query.depth operand
  | .join _ left right condition =>
      max (left.depth operand) (max (right.depth operand) (Expr.depthOption operand condition))

def TableRef.depthList (operand : Nat) : List TableRef → Nat
  | [] => 0
  | t :: rest => max (t.depth operand) (TableRef.depthList operand rest)

def SelectBlock.depth (operand : Nat) : SelectBlock → Nat
  | ⟨_, projections, tables, filter, grouping, having⟩ =>
      max (Projection.depthList operand projections) (max (TableRef.depthList operand tables)
        (max (Expr.depthOption operand filter) (max (Grouping.depthOption operand grouping)
          (Expr.depthOption operand having))))

def Body.depth (operand : Nat) : Body → Nat
  | .setOp _ _ left right => max (left.depth operand) (right.depth operand)
  | .block block => block.depth operand

def NamedQuery.depthList (operand : Nat) : List NamedQuery → Nat
  | [] => 0
  | ⟨_, _, query⟩ :: rest => max (query.depth operand) (NamedQuery.depthList operand rest)

def WithClause.depthOption (operand : Nat) : Option WithClause → Nat
  | none => 0
  | some ⟨_, queries⟩ => NamedQuery.depthList operand queries

def Statement.depth (operand : Nat) : Statement → Nat
  | ⟨withClause, body, orderBy⟩ =>
      max (WithClause.depthOption operand withClause)
        (max (body.depth operand) (OrderItem.depthList operand orderBy))

end

section
variable {operand n : Nat}

attribute [local simp] Expr.depth Expr.depthList Expr.depthOption Expr.depthBranches Projection.depthList
  OrderItem.depthList Grouping.depthOption TableRef.depth TableRef.depthList SelectBlock.depth Body.depth
  NamedQuery.depthList WithClause.depthOption Statement.depth

theorem Expr.depthList_le {items : List Expr} :
    Expr.depthList operand items ≤ n ↔ ∀ e ∈ items, e.depth operand ≤ n := by
  induction items with
  | nil => simp
  | cons e rest ih => rw [Expr.depthList, Nat.max_le, ih, List.forall_mem_cons]

theorem Expr.depthOption_le {o : Option Expr} :
    Expr.depthOption operand o ≤ n ↔ ∀ e ∈ o, e.depth operand ≤ n := by
  cases o <;> simp

theorem Expr.depthBranches_le {branches : List (Expr × Expr)} :
    Expr.depthBranches operand branches ≤ n ↔
      ∀ b ∈ branches, b.1.depth operand ≤ n ∧ b.2.depth operand ≤ n := by
  induction branches with
  | nil => simp
  | cons b rest ih => rw [Expr.depthBranches, Nat.max_le, Nat.max_le, ih, List.forall_mem_cons, and_assoc]

theorem Projection.depthList_le {items : List Projection} :
    Projection.depthList operand items ≤ n ↔ ∀ p ∈ items, p.expr.depth operand ≤ n := by
  induction items with
  | nil => simp
  | cons p rest ih =>
      cases p
      rw [Projection.depthList, Nat.max_le, ih, List.forall_mem_cons]

theorem OrderItem.depthList_le {items : List OrderItem} :
    OrderItem.depthList operand items ≤ n ↔ ∀ k ∈ items, k.expr.depth operand ≤ n := by
  induction items with
  | nil => simp
  | cons k rest ih =>
      cases k
      rw [OrderItem.depthList, Nat.max_le, ih, List.forall_mem_cons]

theorem TableRef.depthList_le {tables : List TableRef} :
    TableRef.depthList operand tables ≤ n ↔ ∀ t ∈ tables, t.depth operand ≤ n := by
  induction tables with
  | nil => simp
  | cons t rest ih => rw [TableRef.depthList, Nat.max_le, ih, List.forall_mem_cons]

theorem NamedQuery.depthList_le {queries : List NamedQuery} :
    NamedQuery.depthList operand queries ≤ n ↔ ∀ q ∈ queries, q.query.depth operand ≤ n := by
  induction queries with
  | nil => simp
  | cons q rest ih =>
      cases q
      rw [NamedQuery.depthList, Nat.max_le, ih, List.forall_mem_cons]

end

end SelectSyntax.SyntaxTree

namespace SelectSyntax.Parse

open Token (Kind)
open SyntaxTree

/-- A parser of which all values have a property. -/
def Yields {α : Type} (Q : α → Prop) (p : Parser α) : Prop := ∀ s a t, p s = .ok a t → Q a

namespace Yields

variable {α β : Type} {P : β → Prop} {Q : α → Prop}

theorem pure {a : α} (h : Q a) : Yields Q (pure a) := by
  rintro s b t ⟨⟩
  exact h

theorem fail (cause : Cause) : Yields Q (fail cause : Parser α) := by
  rintro s b t ⟨⟩

theorem unexpected (expected : List Kind) : Yields Q (unexpected expected : Parser α) :=
  fail _

theorem bind {p : Parser β} {f : β → Parser α} (first : Yields P p)
    (rest : ∀ b, P b → Yields Q (f b)) : Yields Q (p >>= f) := by
  intro s a t run
  obtain ⟨b, u, read, run⟩ := bind_eq_ok.mp run
  exact rest b (first s b u read) u a t run

theorem after {p : Parser β} {f : β → Parser α} (rest : ∀ b, Yields Q (f b)) :
    Yields Q (p >>= f) :=
  bind (P := fun _ => True) (fun _ _ _ _ => trivial) fun b _ => rest b

theorem map {g : β → α} {p : Parser β} (h : Yields (fun b => Q (g b)) p) : Yields Q (g <$> p) := by
  intro s a t run
  obtain ⟨b, read, rfl⟩ := map_eq_ok.mp run
  exact h s b t read

theorem closed {p : Parser α} (h : Yields Q p) : Yields Q (closed p) :=
  h.bind fun _ holds => after fun _ => pure holds

theorem enclosed {p : Parser α} (h : Yields Q p) : Yields Q (enclosed p) :=
  after fun _ => h.closed

theorem many {item? : Parser (Option α)} (h : Yields (fun o => ∀ a ∈ o, Q a) item?) :
    Yields (fun items => ∀ a ∈ items, Q a) (many item?) := by
  have within : ∀ n, Yields (fun items => ∀ a ∈ items, Q a) (manyWithin item? n) := by
    intro n
    induction n with
    | zero => exact pure (by simp)
    | succ n ih =>
        refine h.bind fun o holds => ?_
        cases o with
        | none => exact pure (by simp)
        | some a => exact ih.bind fun rest all => pure (by simpa using ⟨holds a rfl, all⟩)
  exact fun s items t run => within s.cursor.remaining s items t run

theorem after? {k : Kind} {p : Parser α} (h : Yields Q p) :
    Yields (fun o => ∀ a ∈ o, Q a) (after? k p) := by
  refine after fun taken => ?_
  cases taken with
  | false => exact pure (by simp)
  | true => exact h.bind fun a holds => pure (by simpa using holds)

theorem commaList {p : Parser α} (h : Yields Q p) :
    Yields (fun items => ∀ a ∈ items, Q a) (commaList p) :=
  h.bind fun _ first => (many h.after?).bind fun _ rest => pure (by simpa using ⟨first, rest⟩)

theorem prefer {p q : Parser α} (first : Yields Q p) (second : Yields Q q) : Yields Q (prefer p q) := by
  intro s a t run
  unfold Parse.prefer at run
  split at run
  · rename_i read
    cases run
    exact first _ _ _ read
  · split at run
    · rename_i read
      cases run
      exact second _ _ _ read
    · cases run

theorem parenthesized {query : Parser Statement} {other : Parser α} {R : Statement → Prop}
    (first : Yields R query) (second : Yields Q other) :
    Yields (Sum.elim R Q) (parenthesized query other) := by
  refine after fun _ => after fun k => ?_
  split
  · exact .prefer (.map first.closed) (.map second.closed)
  · exact .map second.closed

/-- A property that passes on with each item, grouped from the left, holds of the whole. -/
theorem fold {p : Parser α} {item? : Parser (Option β)} {f : α → β → α}
    (step : ∀ a b, Q a → P b → Q (f a b)) (h : Yields Q p) (items : Yields (fun o => ∀ b ∈ o, P b) item?) :
    Yields Q (do
      let first ← p
      let rest ← Parse.many item?
      Pure.pure (rest.foldl f first)) := by
  refine h.bind fun first holds => (many items).bind fun rest all => pure ?_
  clear items
  induction rest generalizing first with
  | nil => exact holds
  | cons next rest ih =>
      exact ih _ (step _ _ holds (all next (by simp))) fun x mem => all x (by simp [mem])

theorem chain {operator : Kind → Option BinaryOp} {p : Parser Expr} {Q : Expr → Prop}
    (step : ∀ op l r, Q l → Q r → Q (.binary op l r)) (h : Yields Q p) :
    Yields Q (chain operator p) := by
  refine .fold (P := fun next => Q next.2) (fun left next => step next.1 left next.2) h ?_
  refine after fun op => ?_
  cases op with
  | none => exact pure (by simp)
  | some op => exact h.bind fun right holds => pure (by simpa using holds)

theorem setChain {operator : Kind → Option SetOp} {p : Parser Body} {Q : Body → Prop}
    (step : ∀ op quantifier l r, Q l → Q r → Q (.setOp op quantifier l r)) (h : Yields Q p) :
    Yields Q (setChain operator p) := by
  refine .fold (P := fun next => Q next.2.2)
    (fun left next => step next.1 next.2.1 left next.2.2) h ?_
  refine after fun op => ?_
  cases op with
  | none => exact pure (by simp)
  | some op => exact after fun _ => h.bind fun right holds => pure (by simpa using holds)

end Yields

/-- The depth of what a construct is read as, with no `CASE` counted on the way to its operand. -/
def Entry.depth : (e : Entry) → e.Result → Nat
  | .query => Statement.depth 0
  | .body => Body.depth 0
  | .condition | .negated | .signed => Expr.depth 0
  | .table => TableRef.depth 0

section
variable {i : Inner} {n : Nat} (inside : ∀ e, Yields (fun x => e.depth x ≤ n) (i e))
include inside

private theorem condition_inside : Yields (fun e => Expr.depth 0 e ≤ n) (i .condition) :=
  inside .condition

private theorem query_inside : Yields (fun q => Statement.depth 0 q ≤ n) (i .query) :=
  inside .query

private theorem conditions_depth :
    Yields (fun items => Expr.depthList 0 items ≤ n) (conditions i) := by
  intro s items t run
  exact Expr.depthList_le.mpr (Yields.commaList (condition_inside inside) s items t run)

private theorem arguments_depth : Yields (fun items => Expr.depthList 0 items ≤ n) (arguments i) := by
  refine .after fun _ => .after fun closes => ?_
  cases closes with
  | true => exact .pure (by simp [Expr.depthList])
  | false =>
      refine (conditions_depth inside).bind fun items holds => .after fun closes => ?_
      cases closes with
      | true => exact .pure holds
      | false => exact .unexpected _

private theorem columnOrCall_depth : Yields (fun e => Expr.depth 0 e ≤ n + 1) (columnOrCall i) := by
  refine .after fun path => .after fun k => ?_
  split
  · refine (arguments_depth inside).bind fun items holds => .pure ?_
    simp only [Expr.depth]
    omega
  · exact .pure (by simp [Expr.depth])

private theorem branch?_depth :
    Yields (fun o : Option (Expr × Expr) => ∀ b ∈ o, b.1.depth 0 ≤ n ∧ b.2.depth 0 ≤ n) (branch? i) := by
  have conditions := condition_inside inside
  refine .after fun taken => ?_
  cases taken with
  | false => exact .pure (by simp)
  | true =>
      exact conditions.bind fun condition first => .after fun _ =>
        conditions.bind fun result second => .pure (by simpa using ⟨first, second⟩)

private theorem caseEnd_depth {operand : Option Expr} {branches : List (Expr × Expr)}
    (small : Expr.depthOption 0 operand ≤ n + 1)
    (all : ∀ b ∈ branches, b.1.depth 0 ≤ n ∧ b.2.depth 0 ≤ n) :
    Yields (fun e => Expr.depth 0 e ≤ n + 1) (caseEnd i operand branches) := by
  refine (Yields.after? (condition_inside inside)).bind fun otherwise last => .after fun taken => ?_
  split
  · have first := Expr.depthBranches_le.mpr all
    have second := Expr.depthOption_le.mpr last
    refine .pure ?_
    simp only [Expr.depth]
    omega
  · split
    · exact .unexpected _
    · exact .unexpected _

private theorem caseExpr_depth {r : Parser Expr} (operand : Yields (fun e => Expr.depth 0 e ≤ n + 1) r) :
    Yields (fun e => Expr.depth 0 e ≤ n + 1) (caseExpr i r) := by
  have rest : ∀ o, Expr.depthOption 0 o ≤ n + 1 → Yields (fun e => Expr.depth 0 e ≤ n + 1) (do
      let bs ← many (branch? i)
      if bs.isEmpty then Parse.unexpected [.keyword .WHEN] else caseEnd i o bs) := by
    intro o small
    refine (Yields.many (branch?_depth inside)).bind fun bs all => ?_
    split
    · exact .unexpected _
    · exact caseEnd_depth inside small all
  refine .after fun _ => .after fun k => ?_
  dsimp only
  split
  · exact rest none (by simp [Expr.depthOption])
  · have operands : Yields (fun o => Expr.depthOption 0 o ≤ n + 1) (some <$> r) :=
      .map (by simpa [Expr.depthOption] using operand)
    exact operands.bind rest

omit inside in
private theorem ofParenthesis_depth {x : Statement ⊕ List Expr}
    (small : Sum.elim (fun q => Statement.depth 0 q ≤ n) (fun items => Expr.depthList 0 items ≤ n) x) :
    (ofParenthesis x).depth 0 ≤ n + 1 := by
  match x, small with
  | .inl q, small =>
      simp only [Sum.elim_inl] at small
      simp only [ofParenthesis, Expr.depth]
      omega
  | .inr [], _ => simp [ofParenthesis, Expr.depth, Expr.depthList]
  | .inr [item], small =>
      simp only [Sum.elim_inr, Expr.depthList] at small
      simp only [ofParenthesis]
      omega
  | .inr (_ :: _ :: _), small =>
      simp only [Sum.elim_inr] at small
      simp only [ofParenthesis, Expr.depth]
      omega

private theorem signed_depth (op : UnaryOp) :
    Yields (fun e => Expr.depth 0 e ≤ n + 1) (Expr.unary op <$> i .signed) := by
  refine .map fun s e t run => ?_
  have small : Expr.depth 0 e ≤ n := inside .signed s e t run
  simp only [Expr.depth]
  omega

private theorem call_depth (name : List String) :
    Yields (fun e => Expr.depth 0 e ≤ n + 1) (Expr.call name <$> arguments i) := by
  refine .map fun s items t run => ?_
  have small := arguments_depth inside s items t run
  simp only [Expr.depth]
  omega

private theorem primary_depth {r : Parser Expr} (operand : Yields (fun e => Expr.depth 0 e ≤ n + 1) r) :
    Yields (fun e => Expr.depth 0 e ≤ n + 1) (primary i r) := by
  refine .after fun t => ?_
  split
  · exact .after fun _ => .pure (by simp [Expr.depth])
  · exact .after fun _ => .pure (by simp [Expr.depth])
  · exact .after fun _ => .pure (by simp [Expr.depth])
  · exact .after fun _ => .pure (by simp [Expr.depth])
  · exact .after fun _ => .pure (by simp [Expr.depth])
  · exact .map fun s a t _ => Nat.zero_le _
  · exact .after fun _ => signed_depth inside _
  · exact .after fun _ => signed_depth inside _
  · exact caseExpr_depth inside operand
  · exact columnOrCall_depth inside
  · exact columnOrCall_depth inside
  · exact .map fun s x t run => ofParenthesis_depth
      (Yields.parenthesized (query_inside inside) (conditions_depth inside) s x t run)
  · split
    · exact .after fun _ => call_depth inside _
    · exact .unexpected _
  · exact .unexpected _

omit inside in
private theorem binary_depth (op : BinaryOp) (left right : Expr) (first : left.depth 0 ≤ n + 1)
    (second : right.depth 0 ≤ n + 1) : (Expr.binary op left right).depth 0 ≤ n + 1 := by
  simp only [Expr.depth]
  omega

private theorem row_depth : Yields (fun e => Expr.depth 0 e ≤ n + 1) (row i) := by
  have within : ∀ k, Yields (fun e => Expr.depth 0 e ≤ n + 1) (rowWithin i k) := by
    intro k
    induction k with
    | zero => exact .unexpected _
    | succ k ih => exact .chain binary_depth (.chain binary_depth (.chain binary_depth (primary_depth inside ih)))
  exact fun s e t run => within _ s e t run

section
variable {operand : Expr} (small : operand.depth 0 ≤ n + 1)
include small

private theorem comparisonEnd_depth (op : BinaryOp) :
    Yields (fun e => Expr.depth 0 e ≤ n + 1) (comparisonEnd i operand op) := by
  refine .after fun quantifier => ?_
  cases quantifier with
  | none =>
      refine .map fun s e t run => ?_
      have right : Expr.depth 0 e ≤ n + 1 := row_depth inside s e t run
      simp only [Expr.depth]
      omega
  | some quantifier =>
      refine .map fun s q t run => ?_
      have right : Statement.depth 0 q ≤ n := (query_inside inside).enclosed s q t run
      simp only [Expr.depth]
      omega

private theorem betweenEnd_depth (negated : Bool) :
    Yields (fun e => Expr.depth 0 e ≤ n + 1) (betweenEnd i negated operand) := by
  have rows := row_depth inside
  refine .after fun _ => rows.bind fun low first => .after fun _ => rows.bind fun high second => .pure ?_
  simp only [Expr.depth]
  omega

private theorem inEnd_depth (negated : Bool) :
    Yields (fun e => Expr.depth 0 e ≤ n + 1) (inEnd i negated operand) := by
  refine .after fun _ => (Yields.parenthesized (query_inside inside)
    (conditions_depth inside)).bind fun x near => ?_
  cases x with
  | inl q =>
      have near : q.depth 0 ≤ n := near
      refine .pure ?_
      simp only [Expr.depth]
      omega
  | inr values =>
      have near : Expr.depthList 0 values ≤ n := near
      refine .pure ?_
      simp only [Expr.depth]
      omega

private theorem likeEnd_depth (negated : Bool) :
    Yields (fun e => Expr.depth 0 e ≤ n + 1) (likeEnd i negated operand) := by
  have rows := row_depth inside
  refine .after fun _ => rows.bind fun pattern first => rows.after?.bind fun escape second => .pure ?_
  have last := Expr.depthOption_le.mpr second
  simp only [Expr.depth]
  omega

private theorem negatedEnd_depth :
    Yields (fun e => Expr.depth 0 e ≤ n + 1) (negatedEnd i operand) := by
  refine .after fun k => ?_
  split
  · exact betweenEnd_depth inside small true
  · exact inEnd_depth inside small true
  · exact likeEnd_depth inside small true
  · exact .unexpected _

private theorem predicateEnd_depth :
    Yields (fun e => Expr.depth 0 e ≤ n + 1) (predicateEnd i operand) := by
  refine .after fun null => ?_
  cases null with
  | some negated => exact .pure (by simpa only [Expr.depth] using small)
  | none =>
      refine .after fun k => ?_
      split
      · exact .after fun _ => negatedEnd_depth inside small
      · exact betweenEnd_depth inside small false
      · exact inEnd_depth inside small false
      · exact likeEnd_depth inside small false
      · exact .pure small

end

private theorem predicate_depth : Yields (fun e => Expr.depth 0 e ≤ n + 1) (predicate i) := by
  refine .after fun exists_ => ?_
  split
  · refine .map fun s q t run => ?_
    have small : Statement.depth 0 q ≤ n := (query_inside inside).enclosed s q t run
    simp only [Expr.depth]
    omega
  · refine .after fun k => ?_
    split
    · refine (row_depth inside).bind fun left small => .after fun op => ?_
      cases op with
      | some op => exact comparisonEnd_depth inside small op
      | none => exact predicateEnd_depth inside small
    · exact .unexpected _

private theorem negation_depth : Yields (fun e => Expr.depth 0 e ≤ n + 1) (negation i) := by
  refine .after fun taken => ?_
  cases taken with
  | true =>
      refine .map fun s a t run => ?_
      have small : Expr.depth 0 a ≤ n := inside .negated s a t run
      simp only [Expr.depth]
      omega
  | false =>
      refine (predicate_depth inside).bind fun e small => .after fun is => ?_
      cases is with
      | false => exact .pure small
      | true =>
          refine .after fun negated => .after fun value => ?_
          cases value with
          | none => exact .unexpected _
          | some value => exact .pure (by simpa only [Expr.depth] using small)

private theorem condition_depth : Yields (fun e => Expr.depth 0 e ≤ n + 1) (condition i) :=
  .chain binary_depth (.chain binary_depth (negation_depth inside))

private theorem tablePrimary_depth : Yields (fun t => TableRef.depth 0 t ≤ n) (tablePrimary i) := by
  have parens : Yields (fun t => TableRef.depth 0 t ≤ n) (tableInParens i) := by
    have tables : Yields (fun t => TableRef.depth 0 t ≤ n) (i .table) := inside .table
    refine (Yields.parenthesized (query_inside inside) tables).bind fun x near => ?_
    cases x with
    | inl q =>
        have near : q.depth 0 ≤ n := near
        exact .after fun _ => .after fun _ => .pure (by simpa only [TableRef.depth] using near)
    | inr t => exact .pure near
  refine .after fun k => ?_
  split
  · exact .after fun _ => .after fun _ => .pure (by simp [TableRef.depth])
  · exact parens
  · exact .unexpected _

private theorem joinCondition_depth (kind : JoinKind) :
    Yields (fun o => Expr.depthOption 0 o ≤ n) (joinCondition i kind) := by
  unfold joinCondition
  split
  · exact .after fun _ => .map (by simpa only [Expr.depthOption] using condition_inside inside)
  · refine .after fun k => ?_
    split
    · exact .fail _
    · exact .pure (by simp [Expr.depthOption])

private theorem table_depth : Yields (fun t => TableRef.depth 0 t ≤ n) (table i) := by
  refine .fold (P := fun join => join.2.1.depth 0 ≤ n ∧ Expr.depthOption 0 join.2.2 ≤ n) ?_
    (tablePrimary_depth inside) ?_
  · intro left join small near
    simp only [TableRef.depth]
    omega
  · refine .after fun kind => ?_
    cases kind with
    | none => exact .pure (by simp)
    | some kind =>
        exact (tablePrimary_depth inside).bind fun right first =>
          (joinCondition_depth inside kind).bind fun on second => .pure (by simpa using ⟨first, second⟩)

private theorem projection_depth : Yields (fun x => Expr.depth 0 x.expr ≤ n + 1) (projection i) :=
  (row_depth inside).bind fun _ small => .after fun _ => .pure small

private theorem orderItem_depth : Yields (fun x => Expr.depth 0 x.expr ≤ n + 1) (orderItem i) :=
  (row_depth inside).bind fun _ small => .after fun _ => .pure small

private theorem selectBlock_depth : Yields (fun b => SelectBlock.depth 0 b ≤ n + 1) (selectBlock i) := by
  have tables : Yields (fun ts => TableRef.depthList 0 ts ≤ n) (tables i) := by
    refine .after fun taken => ?_
    split
    · intro s ts t run
      exact TableRef.depthList_le.mpr (Yields.commaList (inside .table) s ts t run)
    · exact .pure (by simp [TableRef.depthList])
  have grouping : Yields (fun g => Grouping.depthOption 0 g ≤ n + 1) (grouping? i) := by
    refine .after fun taken => ?_
    split
    · refine .after fun _ => .after fun _ => (row_depth inside).commaList.bind fun items all =>
        .pure ?_
      simpa only [Grouping.depthOption] using Expr.depthList_le.mpr all
    · exact .pure (by simp [Grouping.depthOption])
  have conditions := condition_inside inside
  refine .after fun _ => .after fun _ => (projection_depth inside).commaList.bind fun ps first =>
    tables.bind fun ts second => conditions.after?.bind fun filter third =>
    grouping.bind fun g fourth => conditions.after?.bind fun having fifth => .pure ?_
  have projections := Projection.depthList_le.mpr first
  have filters := Expr.depthOption_le.mpr third
  have havings := Expr.depthOption_le.mpr fifth
  simp only [SelectBlock.depth]
  omega

private theorem body_depth : Yields (fun b => Body.depth 0 b ≤ n + 1) (body i) := by
  have blocks : Yields (fun b => Body.depth 0 b ≤ n + 1) (bodyPrimary i) := by
    refine .after fun k => ?_
    split
    · exact .map (by simpa only [Body.depth] using selectBlock_depth inside)
    · intro s b t run
      have small : Body.depth 0 b ≤ n := Yields.enclosed (inside .body) s b t run
      omega
    · exact .unexpected _
  have step : ∀ op quantifier l r, Body.depth 0 l ≤ n + 1 → Body.depth 0 r ≤ n + 1 →
      Body.depth 0 (.setOp op quantifier l r) ≤ n + 1 := by
    intro op quantifier l r left right
    simp only [Body.depth]
    omega
  exact .setChain step (.setChain step blocks)

private theorem query_depth : Yields (fun q => Statement.depth 0 q ≤ n + 1) (query i) := by
  have named : Yields (fun q => Statement.depth 0 q.query ≤ n) (namedQuery i) := by
    refine .after fun _ => .after fun _ => .after fun taken => ?_
    split
    · exact (query_inside inside).enclosed.bind fun q small => .pure small
    · split
      · exact .unexpected _
      · exact .unexpected _
  have withs : Yields (fun w => WithClause.depthOption 0 w ≤ n) (withClause? i) := by
    refine .after fun taken => ?_
    split
    · refine .after fun _ => named.commaList.bind fun queries all => .pure ?_
      simpa only [WithClause.depthOption] using NamedQuery.depthList_le.mpr all
    · exact .pure (by simp [WithClause.depthOption])
  have orders : Yields (fun items => OrderItem.depthList 0 items ≤ n + 1) (orderBy i) := by
    refine .after fun taken => ?_
    split
    · refine .after fun _ s items t run => ?_
      exact OrderItem.depthList_le.mpr ((orderItem_depth inside).commaList s items t run)
    · exact .pure (by simp [OrderItem.depthList])
  refine withs.bind fun w first => (body_depth inside).bind fun b second =>
    orders.bind fun items third => .pure ?_
  simp only [Statement.depth]
  omega

private theorem rule_depth (e : Entry) : Yields (fun x => e.depth x ≤ n + 1) (rule i e) := by
  cases e with
  | query => exact query_depth inside
  | body => exact body_depth inside
  | condition => exact condition_depth inside
  | negated => exact negation_depth inside
  | signed => exact primary_depth inside (row_depth inside)
  | table =>
      intro s t u run
      exact Nat.le_succ_of_le (table_depth inside s t u run)

end

theorem levelled_depth (limit levels : Nat) (e : Entry) :
    Yields (fun x => e.depth x ≤ levels) (levelled limit levels e) := by
  induction levels generalizing e with
  | zero => exact .fail _
  | succ levels ih => exact rule_depth ih e

end SelectSyntax.Parse

namespace SelectSyntax.Session

open Parse
open SyntaxTree

def Call.depth (operand : Nat) : (c : Call) → c.Result → Nat
  | .statement | .query => Statement.depth operand
  | .condition => Expr.depth operand

private theorem parser_depth (c : Call) (s : Session) :
    Yields (fun x => c.depth 0 x ≤ s.levels) (c.parser s) := by
  cases c with
  | statement =>
      refine Yields.bind (levelled_depth _ _ .query) fun q small => .after fun _ => .after fun k => ?_
      split
      · exact .unexpected _
      · exact .pure small
  | query => exact levelled_depth _ _ .query
  | condition => exact levelled_depth _ _ .condition

/-- A rule that succeeds under a limit gives a tree that is no deeper than the limit, where no `CASE` is
counted on the way to its operand. -/
theorem depth_le_limit (c : Call) (text : String) (requireEnd : Bool) (m : Nat) (x : c.Result)
    (run : (c.run (ofText text ⟨some m, requireEnd⟩)).1 = .ok x) : c.depth 0 x ≤ m := by
  rw [c.run_eq, Session.run] at run
  cases read : c.parser (ofText text ⟨some m, requireEnd⟩) (ofText text ⟨some m, requireEnd⟩).state with
  | ok y t =>
      rw [read] at run
      cases run
      exact parser_depth c _ _ _ _ read
  | error f t =>
      rw [read] at run
      cases run

/-- A `CASE` under a limit of two levels. -/
theorem depth_le_limit_case :
    let e : Expr := .case (some (.column ["a"] false)) [(.column ["b"] false, .null)] none
    (Call.condition.run (ofText "CASE a WHEN b THEN NULL END" ⟨some 2, true⟩)).1 = .ok e ∧
      Expr.depth 0 e ≤ 2 := by
  have run : (Call.condition.run (ofText "CASE a WHEN b THEN NULL END" ⟨some 2, true⟩)).1 =
      .ok (.case (some (.column ["a"] false)) [(.column ["b"] false, .null)] none) := rfl
  exact ⟨run, depth_le_limit .condition _ true 2 _ run⟩

/-- With every `CASE` counted, a limit of two levels lets three of them through. -/
theorem case_operands_exceed_limit : ∃ e,
    (Call.condition.run
      (ofText "CASE CASE CASE a WHEN b THEN c END WHEN b THEN c END WHEN b THEN c END"
        ⟨some 2, true⟩)).1 = .ok e ∧ 2 < Expr.depth 1 e := by
  have depth : ((Call.condition.run
      (ofText "CASE CASE CASE a WHEN b THEN c END WHEN b THEN c END WHEN b THEN c END"
        ⟨some 2, true⟩)).1.toOption.map (Expr.depth 1)) = some 3 := by decide +kernel
  obtain ⟨e, accepted, three⟩ := Option.map_eq_some_iff.mp depth
  refine ⟨e, ?_, by omega⟩
  revert accepted
  generalize (Call.condition.run _).1 = r
  intro accepted
  cases r with
  | ok x => cases accepted; rfl
  | error f => cases accepted

end SelectSyntax.Session
