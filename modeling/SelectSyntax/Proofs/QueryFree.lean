import SelectSyntax.Proofs.RoundTrip
import SelectSyntax.SyntaxTree.Build

/-!
Trees in whose expressions no query stands. Queries may still stand behind names, in derived tables and on
the sides of set operations. No list of values of an `IN` in such a tree is written like a query, so every
tree of the documented shape in which no expression holds a query is read again from what it is written as.
-/

set_option autoImplicit false
set_option relaxedAutoImplicit false

namespace SelectSyntax

namespace SyntaxTree

mutual

/-- An expression in which no query stands: no subquery, `EXISTS`, quantified comparison or `IN` of a query. -/
def Expr.QueryFree : Expr → Prop
  | .binary _ left right => left.QueryFree ∧ right.QueryFree
  | .unary _ operand => operand.QueryFree
  | .is _ _ operand => operand.QueryFree
  | .between _ operand low high => operand.QueryFree ∧ low.QueryFree ∧ high.QueryFree
  | .inValues _ operand items => operand.QueryFree ∧ Expr.QueryFreeList items
  | .like _ operand pattern escape =>
      operand.QueryFree ∧ pattern.QueryFree ∧ Expr.QueryFreeOption escape
  | .bool _ | .null | .number _ | .string _ | .parameter _ | .column _ _ => True
  | .call _ arguments => Expr.QueryFreeList arguments
  | .list items => Expr.QueryFreeList items
  | .case operand branches otherwise =>
      Expr.QueryFreeOption operand ∧ Expr.QueryFreeBranches branches ∧ Expr.QueryFreeOption otherwise
  | .quantified .. | .inQuery .. | .existsQuery _ | .subquery _ => False

def Expr.QueryFreeList : List Expr → Prop
  | [] => True
  | e :: rest => e.QueryFree ∧ Expr.QueryFreeList rest

def Expr.QueryFreeOption : Option Expr → Prop
  | none => True
  | some e => e.QueryFree

def Expr.QueryFreeBranches : List (Expr × Expr) → Prop
  | [] => True
  | (condition, result) :: rest =>
      condition.QueryFree ∧ result.QueryFree ∧ Expr.QueryFreeBranches rest

end

mutual

/-- A table reference in whose expressions no query stands. -/
def TableRef.QueryFree : TableRef → Prop
  | .relation _ _ => True
  | .derived query _ _ => query.QueryFree
  | .join _ left right condition =>
      left.QueryFree ∧ right.QueryFree ∧ Expr.QueryFreeOption condition

def TableRef.QueryFreeList : List TableRef → Prop
  | [] => True
  | t :: rest => t.QueryFree ∧ TableRef.QueryFreeList rest

/-- A block in whose expressions no query stands. -/
def SelectBlock.QueryFree : SelectBlock → Prop
  | ⟨_, projections, tables, filter, grouping, having⟩ =>
      (∀ p ∈ projections, p.expr.QueryFree) ∧ TableRef.QueryFreeList tables ∧
        Expr.QueryFreeOption filter ∧ (∀ g ∈ grouping, Expr.QueryFreeList g.items) ∧
        Expr.QueryFreeOption having

/-- A query body in whose expressions no query stands. -/
def Body.QueryFree : Body → Prop
  | .setOp _ _ left right => left.QueryFree ∧ right.QueryFree
  | .block block => block.QueryFree

def NamedQuery.QueryFreeList : List NamedQuery → Prop
  | [] => True
  | ⟨_, _, query⟩ :: rest => query.QueryFree ∧ NamedQuery.QueryFreeList rest

def WithClause.QueryFreeOption : Option WithClause → Prop
  | none => True
  | some ⟨_, queries⟩ => NamedQuery.QueryFreeList queries

/-- A statement in whose expressions no query stands. -/
def Statement.QueryFree : Statement → Prop
  | ⟨withClause, body, orderBy⟩ =>
      WithClause.QueryFreeOption withClause ∧ body.QueryFree ∧ ∀ k ∈ orderBy, k.expr.QueryFree

end

theorem Expr.AreValues.of_queryFree {items : List Expr} (some_ : items ≠ []) (free : Expr.QueryFreeList items) :
    Expr.AreValues items := by
  refine ⟨some_, ?_⟩
  rintro ⟨_, rfl⟩
  exact free.1

mutual

/-- In an expression without queries no list of values of an `IN` is written like a query. -/
theorem Expr.shaped_of_queryFree :
    ∀ e : Expr, e.Shaped (fun items => items ≠ []) → e.QueryFree → e.Shaped Expr.AreValues
  | .binary _ left right, shaped, free =>
      ⟨left.shaped_of_queryFree shaped.1 free.1, right.shaped_of_queryFree shaped.2 free.2⟩
  | .unary _ operand, shaped, free => operand.shaped_of_queryFree shaped free
  | .is _ _ operand, shaped, free => operand.shaped_of_queryFree shaped free
  | .between _ operand low high, shaped, free =>
      ⟨operand.shaped_of_queryFree shaped.1 free.1, low.shaped_of_queryFree shaped.2.1 free.2.1,
        high.shaped_of_queryFree shaped.2.2 free.2.2⟩
  | .inValues _ operand items, shaped, free =>
      ⟨.of_queryFree shaped.1 free.2, operand.shaped_of_queryFree shaped.2.1 free.1,
        Expr.shapedList_of_queryFree items shaped.2.2 free.2⟩
  | .like _ operand pattern escape, shaped, free =>
      ⟨operand.shaped_of_queryFree shaped.1 free.1, pattern.shaped_of_queryFree shaped.2.1 free.2.1,
        Expr.shapedOption_of_queryFree escape shaped.2.2 free.2.2⟩
  | .bool _, _, _ => trivial
  | .null, _, _ => trivial
  | .number _, _, _ => trivial
  | .string _, _, _ => trivial
  | .parameter _, _, _ => trivial
  | .column _ _, shaped, _ => shaped
  | .call _ arguments, shaped, free =>
      ⟨shaped.1, Expr.shapedList_of_queryFree arguments shaped.2 free⟩
  | .list items, shaped, free => ⟨shaped.1, Expr.shapedList_of_queryFree items shaped.2 free⟩
  | .case operand branches otherwise, shaped, free =>
      ⟨shaped.1, Expr.shapedOption_of_queryFree operand shaped.2.1 free.1,
        Expr.shapedBranches_of_queryFree branches shaped.2.2.1 free.2.1,
        Expr.shapedOption_of_queryFree otherwise shaped.2.2.2 free.2.2⟩
  | .quantified .., _, free => free.elim
  | .inQuery .., _, free => free.elim
  | .existsQuery _, _, free => free.elim
  | .subquery _, _, free => free.elim

private theorem Expr.shapedList_of_queryFree :
    ∀ es : List Expr, Expr.ShapedList (fun items => items ≠ []) es → Expr.QueryFreeList es →
      Expr.ShapedList Expr.AreValues es
  | [], _, _ => trivial
  | e :: rest, shaped, free =>
      ⟨e.shaped_of_queryFree shaped.1 free.1, Expr.shapedList_of_queryFree rest shaped.2 free.2⟩

private theorem Expr.shapedOption_of_queryFree :
    ∀ o : Option Expr, Expr.ShapedOption (fun items => items ≠ []) o → Expr.QueryFreeOption o →
      Expr.ShapedOption Expr.AreValues o
  | none, _, _ => trivial
  | some e, shaped, free => e.shaped_of_queryFree shaped free

private theorem Expr.shapedBranches_of_queryFree :
    ∀ branches : List (Expr × Expr), Expr.ShapedBranches (fun items => items ≠ []) branches →
      Expr.QueryFreeBranches branches → Expr.ShapedBranches Expr.AreValues branches
  | [], _, _ => trivial
  | (condition, result) :: rest, shaped, free =>
      ⟨condition.shaped_of_queryFree shaped.1 free.1, result.shaped_of_queryFree shaped.2.1 free.2.1,
        Expr.shapedBranches_of_queryFree rest shaped.2.2 free.2.2⟩

end

mutual

private theorem TableRef.shaped_of_queryFree :
    ∀ t : TableRef, t.Shaped (fun items => items ≠ []) → t.QueryFree → t.Shaped Expr.AreValues
  | .relation _ _, shaped, _ => shaped
  | .derived query _ _, shaped, free => query.shaped_of_queryFree shaped free
  | .join _ left right condition, shaped, free =>
      ⟨shaped.1, left.shaped_of_queryFree shaped.2.1 free.1, right.shaped_of_queryFree shaped.2.2.1 free.2.1,
        Expr.shapedOption_of_queryFree condition shaped.2.2.2 free.2.2⟩

private theorem TableRef.shapedList_of_queryFree :
    ∀ ts : List TableRef, TableRef.ShapedList (fun items => items ≠ []) ts → TableRef.QueryFreeList ts →
      TableRef.ShapedList Expr.AreValues ts
  | [], _, _ => trivial
  | t :: rest, shaped, free =>
      ⟨t.shaped_of_queryFree shaped.1 free.1, TableRef.shapedList_of_queryFree rest shaped.2 free.2⟩

private theorem SelectBlock.shaped_of_queryFree :
    ∀ b : SelectBlock, b.Shaped (fun items => items ≠ []) → b.QueryFree → b.Shaped Expr.AreValues
  | ⟨_, projections, tables, filter, grouping, having⟩, shaped, free => by
      obtain ⟨some_, entries, ts, where_, keys, last⟩ := shaped
      obtain ⟨entries', ts', where', keys', last'⟩ := free
      refine ⟨some_, Projection.shapedList_iff.mpr fun p mem => ?_, TableRef.shapedList_of_queryFree tables ts ts',
        Expr.shapedOption_of_queryFree filter where_ where', ?_, Expr.shapedOption_of_queryFree having last last'⟩
      · exact p.expr.shaped_of_queryFree (Projection.shapedList_iff.mp entries p mem) (entries' p mem)
      · match grouping, keys, keys' with
        | none, _, _ => trivial
        | some ⟨_, items⟩, keys, keys' =>
            exact ⟨keys.1, Expr.shapedList_of_queryFree items keys.2 (keys' _ rfl)⟩

private theorem Body.shaped_of_queryFree :
    ∀ b : Body, b.Shaped (fun items => items ≠ []) → b.QueryFree → b.Shaped Expr.AreValues
  | .setOp _ _ left right, shaped, free =>
      ⟨left.shaped_of_queryFree shaped.1 free.1, right.shaped_of_queryFree shaped.2 free.2⟩
  | .block block, shaped, free => block.shaped_of_queryFree shaped free

private theorem NamedQuery.shapedList_of_queryFree :
    ∀ qs : List NamedQuery, NamedQuery.ShapedList (fun items => items ≠ []) qs →
      NamedQuery.QueryFreeList qs → NamedQuery.ShapedList Expr.AreValues qs
  | [], _, _ => trivial
  | ⟨_, _, query⟩ :: rest, shaped, free =>
      ⟨query.shaped_of_queryFree shaped.1 free.1, NamedQuery.shapedList_of_queryFree rest shaped.2 free.2⟩

/-- In a statement whose expressions are without queries no list of values of an `IN` is written like a
query. -/
theorem Statement.shaped_of_queryFree :
    ∀ t : Statement, t.Shaped (fun items => items ≠ []) → t.QueryFree → t.Shaped Expr.AreValues
  | ⟨withClause, body, orderBy⟩, shaped, free => by
      refine ⟨?_, body.shaped_of_queryFree shaped.2.1 free.2.1, OrderItem.shapedList_iff.mpr fun k mem => ?_⟩
      · match withClause, shaped.1, free.1 with
        | none, _, _ => trivial
        | some ⟨_, queries⟩, clause, free =>
            exact ⟨clause.1, NamedQuery.shapedList_of_queryFree queries clause.2 free⟩
      · exact k.expr.shaped_of_queryFree (OrderItem.shapedList_iff.mp shaped.2.2 k mem) (free.2.2 k mem)

end

end SyntaxTree

open SyntaxTree

theorem Parse.Entry.Documented.readable {e : Parse.Entry} {a : e.Result} (documented : e.Documented a)
    (shaped : e.Shaped Expr.AreValues a) : e.Readable a :=
  ⟨shaped, fun text mem => (documented.2.1 text mem).isNumeral, documented.2.2⟩

/-- A tree of the documented shape in whose expressions no query stands is read again from what it is written
as, a search condition up to the end of the text. -/
theorem queryFree_round_trip (t : Statement) (e : Expr) :
    (Parse.Entry.query.Documented t → t.QueryFree → Statement.ofSql t.toSql = .ok t) ∧
      (Parse.Entry.condition.Documented e → e.QueryFree → Session.ReadsAll e.toSql e) := by
  refine ⟨fun documented free => ?_, fun documented free => ?_⟩
  · have readable := documented.readable (t.shaped_of_queryFree documented.1 free)
    exact Statement.ofSql_toSql.mpr readable
  · have readable := documented.readable (e.shaped_of_queryFree documented.1 free)
    exact Expr.readsAll_toSql.mpr readable

/-- Nested signs, a division by a product, a test and a negation under arithmetic, a comparison of a comparison
and a list of one value; then a difference to the right of a difference, a named query, and a join to the right
of a join, which starts with a derived table. -/
theorem queryFree_round_trip_nested :
    let e : Expr := .binary .eq
      (.binary .eq (.unary .neg (.unary .neg (.named "")))
        (.binary .div (.number "1.5") (.binary .mul (.parameter 1) (.is .null true (.unary .not .null)))))
      (.inValues false (.string "it's") [.case none [(.bool true, .star)] none])
    let q : Statement := ⟨none, .block ⟨.all, [⟨.named "a", none⟩], [], none, none, none⟩, []⟩
    let join : TableRef := .join (.sided false (.left true)) (.relation ["c"] (some "left"))
      (.join .cross (.derived q "d" ["x"]) (.relation ["s", "t"] none) none) (some e)
    let block : SelectBlock := ⟨.distinct, [⟨.star, none⟩], [join], none, none, none⟩
    let t : Statement := ⟨some ⟨true, [⟨"c", ["x"], q⟩]⟩,
      .setOp .except .all q.body (.setOp .except .unspecified q.body (.block block)), []⟩
    (Parse.Entry.query.Documented t ∧ t.QueryFree ∧ Statement.ofSql t.toSql = .ok t) ∧
      Parse.Entry.condition.Documented e ∧ e.QueryFree ∧ Session.ReadsAll e.toSql e := by
  intro e q join block t
  have number : ∀ ls : List Leaf, (∀ l ∈ ls, ∀ text, l = .number text → text = "1.5") →
      ∀ text, .number text ∈ ls → IsNumber text := by
    rintro ls only text mem
    obtain rfl := only _ mem text rfl
    exact ⟨_, _, rfl, rfl, rfl, rfl⟩
  have leaves : e.leaves = [.name "", .number "1.5", .parameter 1, .null, .string "it's", .bool true] := rfl
  have shaped : e.Shaped fun items => items ≠ [] := by
    simp [e, Expr.Shaped, Expr.ShapedList, Expr.ShapedOption, Expr.ShapedBranches, Expr.named, Expr.star]
  have free : e.QueryFree := by
    simp [e, Expr.QueryFree, Expr.QueryFreeList, Expr.QueryFreeOption, Expr.QueryFreeBranches, Expr.named,
      Expr.star]
  have documented : Parse.Entry.condition.Documented e :=
    ⟨shaped, number e.leaves (by simp [leaves]), by rw [Parse.Entry.leaves, leaves]; rfl⟩
  have whole : ∀ {values : List Expr → Prop}, e.Shaped values → t.Shaped values := by
    intro values shaped
    simp [shaped, t, block, join, q, Statement.Shaped, WithClause.ShapedOption, NamedQuery.ShapedList, Body.Shaped,
      SelectBlock.Shaped, Projection.ShapedList, TableRef.ShapedList, TableRef.Shaped, OrderItem.ShapedList,
      Expr.ShapedOption, Grouping.ShapedOption, Expr.named, Expr.star, Expr.Shaped, JoinKind.requiresCondition]
  have free' : t.QueryFree := by
    simp [free, t, block, join, q, Statement.QueryFree, WithClause.QueryFreeOption, NamedQuery.QueryFreeList,
      Body.QueryFree, SelectBlock.QueryFree, TableRef.QueryFreeList, TableRef.QueryFree, Expr.QueryFreeOption,
      Expr.named, Expr.star, Expr.QueryFree]
  have leaves' : t.leaves = [.name "c", .name "x", .name "a", .name "a", .name "a", .name "c", .name "left",
      .name "a", .name "d", .name "x", .name "s", .name "t"] ++ e.leaves := rfl
  have statement : Parse.Entry.query.Documented t :=
    ⟨whole shaped, number t.leaves (by simp [leaves', leaves]), by rw [Parse.Entry.leaves, leaves', leaves]; rfl⟩
  exact ⟨⟨statement, free', (queryFree_round_trip t e).1 statement free'⟩, documented, free,
    (queryFree_round_trip t e).2 documented free⟩

end SelectSyntax
