import SelectSyntax.Proofs.Phrases
import SelectSyntax.Proofs.Ambiguity

/-!
The shape of trees: which lists are empty, where a column or a join condition may be missing, and what may
stand among the values of an `IN`. Every tree that is read has it; no `IN` that is read has a list of values
that is a single query body in parentheses, since that is read as a query.
-/

set_option autoImplicit false
set_option relaxedAutoImplicit false

namespace SelectSyntax

open Token (Kind Keyword)

namespace SyntaxTree

mutual

/-- An expression of the shape that trees have, where the lists of values of an `IN` have a property. -/
def Expr.Shaped (values : List Expr → Prop) : Expr → Prop
  | .binary _ left right => left.Shaped values ∧ right.Shaped values
  | .unary _ operand => operand.Shaped values
  | .is _ _ operand => operand.Shaped values
  | .quantified op _ left query =>
      op.isComparison = true ∧ left.Shaped values ∧ query.Shaped values
  | .between _ operand low high => operand.Shaped values ∧ low.Shaped values ∧ high.Shaped values
  | .inQuery _ operand query => operand.Shaped values ∧ query.Shaped values
  | .inValues _ operand items =>
      values items ∧ operand.Shaped values ∧ Expr.ShapedList values items
  | .like _ operand pattern escape =>
      operand.Shaped values ∧ pattern.Shaped values ∧ Expr.ShapedOption values escape
  | .existsQuery query => query.Shaped values
  | .bool _ | .null | .number _ | .string _ | .parameter _ => True
  | .column path wildcard => path = [] → wildcard = true
  | .call name arguments => name ≠ [] ∧ Expr.ShapedList values arguments
  | .list items => 2 ≤ items.length ∧ Expr.ShapedList values items
  | .subquery query => query.Shaped values
  | .case operand branches otherwise =>
      branches ≠ [] ∧ Expr.ShapedOption values operand ∧ Expr.ShapedBranches values branches ∧
        Expr.ShapedOption values otherwise

def Expr.ShapedList (values : List Expr → Prop) : List Expr → Prop
  | [] => True
  | e :: rest => e.Shaped values ∧ Expr.ShapedList values rest

def Expr.ShapedOption (values : List Expr → Prop) : Option Expr → Prop
  | none => True
  | some e => e.Shaped values

def Expr.ShapedBranches (values : List Expr → Prop) : List (Expr × Expr) → Prop
  | [] => True
  | (condition, result) :: rest =>
      condition.Shaped values ∧ result.Shaped values ∧ Expr.ShapedBranches values rest

def Projection.ShapedList (values : List Expr → Prop) : List Projection → Prop
  | [] => True
  | ⟨e, _⟩ :: rest => e.Shaped values ∧ Projection.ShapedList values rest

def OrderItem.ShapedList (values : List Expr → Prop) : List OrderItem → Prop
  | [] => True
  | ⟨e, _⟩ :: rest => e.Shaped values ∧ OrderItem.ShapedList values rest

def Grouping.ShapedOption (values : List Expr → Prop) : Option Grouping → Prop
  | none => True
  | some ⟨_, items⟩ => items ≠ [] ∧ Expr.ShapedList values items

/-- A table reference of the shape that trees have. -/
def TableRef.Shaped (values : List Expr → Prop) : TableRef → Prop
  | .relation path _ => path ≠ []
  | .derived query _ _ => query.Shaped values
  | .join kind left right condition =>
      condition.isSome = kind.requiresCondition ∧ left.Shaped values ∧ right.Shaped values ∧
        Expr.ShapedOption values condition

def TableRef.ShapedList (values : List Expr → Prop) : List TableRef → Prop
  | [] => True
  | t :: rest => t.Shaped values ∧ TableRef.ShapedList values rest

def SelectBlock.Shaped (values : List Expr → Prop) : SelectBlock → Prop
  | ⟨_, projections, tables, filter, grouping, having⟩ =>
      projections ≠ [] ∧ Projection.ShapedList values projections ∧
        TableRef.ShapedList values tables ∧ Expr.ShapedOption values filter ∧
        Grouping.ShapedOption values grouping ∧ Expr.ShapedOption values having

def Body.Shaped (values : List Expr → Prop) : Body → Prop
  | .setOp _ _ left right => left.Shaped values ∧ right.Shaped values
  | .block block => block.Shaped values

def NamedQuery.ShapedList (values : List Expr → Prop) : List NamedQuery → Prop
  | [] => True
  | ⟨_, _, query⟩ :: rest => query.Shaped values ∧ NamedQuery.ShapedList values rest

def WithClause.ShapedOption (values : List Expr → Prop) : Option WithClause → Prop
  | none => True
  | some ⟨_, queries⟩ => queries ≠ [] ∧ NamedQuery.ShapedList values queries

def Statement.Shaped (values : List Expr → Prop) : Statement → Prop
  | ⟨withClause, body, orderBy⟩ =>
      WithClause.ShapedOption values withClause ∧ body.Shaped values ∧
        OrderItem.ShapedList values orderBy

end

/-- The lists of values of an `IN` that are not written like a query: all but those of a single subquery
without `WITH` and `ORDER BY`. -/
def Expr.AreValues (items : List Expr) : Prop :=
  items ≠ [] ∧ ¬∃ body, items = [.subquery ⟨none, body, []⟩]

section
variable {values : List Expr → Prop}

theorem Expr.shapedList_iff {es : List Expr} :
    Expr.ShapedList values es ↔ ∀ e ∈ es, e.Shaped values := by
  induction es with
  | nil => simp [Expr.ShapedList]
  | cons e es ih => simp [Expr.ShapedList, ih]

theorem Expr.shapedOption_iff {o : Option Expr} :
    Expr.ShapedOption values o ↔ ∀ e ∈ o, e.Shaped values := by
  cases o <;> simp [Expr.ShapedOption]

theorem Expr.shapedBranches_iff {branches : List (Expr × Expr)} :
    Expr.ShapedBranches values branches ↔
      ∀ b ∈ branches, b.1.Shaped values ∧ b.2.Shaped values := by
  induction branches with
  | nil => simp [Expr.ShapedBranches]
  | cons b branches ih => simp [Expr.ShapedBranches, ih, and_assoc]

theorem Projection.shapedList_iff {ps : List Projection} :
    Projection.ShapedList values ps ↔ ∀ p ∈ ps, p.expr.Shaped values := by
  induction ps with
  | nil => simp [Projection.ShapedList]
  | cons p ps ih =>
      cases p
      simp [Projection.ShapedList, ih]

theorem OrderItem.shapedList_iff {items : List OrderItem} :
    OrderItem.ShapedList values items ↔ ∀ k ∈ items, k.expr.Shaped values := by
  induction items with
  | nil => simp [OrderItem.ShapedList]
  | cons k items ih =>
      cases k
      simp [OrderItem.ShapedList, ih]

theorem TableRef.shapedList_iff {tables : List TableRef} :
    TableRef.ShapedList values tables ↔ ∀ t ∈ tables, t.Shaped values := by
  induction tables with
  | nil => simp [TableRef.ShapedList]
  | cons t tables ih => simp [TableRef.ShapedList, ih]

theorem NamedQuery.shapedList_iff {queries : List NamedQuery} :
    NamedQuery.ShapedList values queries ↔ ∀ q ∈ queries, q.query.Shaped values := by
  induction queries with
  | nil => simp [NamedQuery.ShapedList]
  | cons q queries ih =>
      cases q
      simp [NamedQuery.ShapedList, ih]

end

end SyntaxTree

open SyntaxTree

def Parse.Entry.Shaped (values : List Expr → Prop) : (e : Parse.Entry) → e.Result → Prop
  | .query => Statement.Shaped values
  | .body => Body.Shaped values
  | .condition | .negated | .signed => Expr.Shaped values
  | .table => TableRef.Shaped values

namespace Grammar

/-- The trees of a nonterminal have their shape. -/
def shapes : (X : Nonterminal) → Property X.Result
  | .construct e => fun _ _ a => e.Shaped Expr.AreValues a
  | .row => fun _ _ a => a.Shaped Expr.AreValues

def Gives {α : Type} (F : Form α) (P : α → Prop) : Prop := Meets firstReading shapes F fun _ _ a => P a

namespace Gives

variable {α β : Type} {P : β → Prop} {Q : α → Prop}

theorem weaken {F : Form α} {Q' : α → Prop} (h : Gives F Q) (weaker : ∀ a, Q a → Q' a) : Gives F Q' :=
  Meets.weaken h fun _ _ a met => weaker a met

theorem map {f : β → α} {F : Form β} (h : Gives F fun b => Q (f b)) : Gives (f <$> F) Q := Meets.map h

theorem pure {a : α} (h : Q a) : Gives (pure a) Q := Meets.pure fun _ => h

theorem or {F H : Form α} (first : Gives F Q) (second : Gives H Q) : Gives (F <|> H) Q :=
  Meets.or first second

theorem seq {F : Form (β → α)} {H : Form β} (second : Gives H P)
    (first : Gives F fun f => ∀ b, P b → Q (f b)) : Gives (F <*> H) Q :=
  Meets.seq second (first.weaken fun _ met _ b holds => met b holds)

theorem anything (F : Form α) : Gives F fun _ => True := by
  induction F with
  | empty a => exact Meets.empty fun _ => trivial
  | symbol read => exact Meets.symbol fun _ _ _ _ _ => trivial
  | parameter f => exact Meets.parameter fun _ _ => trivial
  | nonterminal X f => exact Meets.nonterminal fun _ _ _ _ => trivial
  | sequence F H first second => exact Meets.sequence first second fun _ _ _ _ _ _ _ => trivial
  | choice F H first second => exact Meets.choice first second
  | repeated F f item => exact Meets.repeated item fun _ _ _ _ => trivial
  | parens F inside => exact Meets.parens inside fun _ _ _ _ _ _ => trivial
  | prefer F H f first second =>
      exact Meets.prefer first second (fun _ _ _ _ _ _ => trivial) fun _ _ _ _ _ _ _ _ => trivial

theorem after {F : Form β} {H : Form α} (h : Gives H Q) : Gives (F *> H) Q :=
  Meets.seqRight h ((anything F).weaken fun _ _ _ _ met => met)

theorem before {F : Form α} {H : Form β} (h : Gives F Q) : Gives (F <* H) Q :=
  Meets.seqLeft (anything H) (h.weaken fun _ met _ _ _ => met)

theorem construct {e : Parse.Entry} {Q : e.Result → Prop} (h : ∀ a, e.Shaped Expr.AreValues a → Q a) :
    Gives (Form.construct e) Q :=
  Meets.construct fun _ _ a met => h a met

theorem row {Q : Expr → Prop} (h : ∀ e, e.Shaped Expr.AreValues → Q e) : Gives Form.row Q :=
  Meets.row fun _ _ e met => h e met

theorem optional {F : Form α} (h : Gives F Q) : Gives (Form.optional F) fun o => ∀ a ∈ o, Q a :=
  .or (.map (h.weaken fun a holds => by simpa using holds)) (.pure (by simp))

theorem parens {F : Form α} (h : Gives F Q) : Gives (.parens F) Q :=
  Meets.parens h fun _ _ _ _ _ met => met

theorem many {F : Form α} (h : Gives F Q) : Gives (Form.many F) fun items => ∀ a ∈ items, Q a :=
  Meets.weaken (Meets.many h) fun _ _ _ each => each.forall_mem

theorem separated {k : Kind} {F : Form α} (h : Gives F Q) :
    Gives (Form.separated k F) fun items => items ≠ [] ∧ ∀ a ∈ items, Q a :=
  .seq h.after.many (.map (h.weaken fun a holds rest all => by simpa using ⟨holds, all⟩))

theorem fold {F : Form α} {G : Form β} {step : α → β → α} (first : Gives F Q) (next : Gives G P)
    (goes : ∀ a b, Q a → P b → Q (step a b)) :
    Gives ((fun first rest => List.foldl step first rest) <$> F <*> Form.many G) Q :=
  Meets.fold first next fun _ _ _ a b met met' => goes a b met met'

end Gives

private theorem names_give {k : Kind} : Gives (Form.separated k name) fun names => names ≠ [] :=
  (Gives.separated (.anything name)).weaken fun _ met => met.1

private theorem condition_gives :
    Gives (Form.construct .condition) (Expr.Shaped Expr.AreValues) :=
  .construct fun _ shaped => shaped

private theorem clause_gives {k : Keyword} : Gives (Form.optional (Form.word k *> Form.construct .condition))
    fun (o : Option Expr) => Expr.ShapedOption Expr.AreValues o :=
  condition_gives.after.optional.weaken fun _ met => Expr.shapedOption_iff.mpr met

private theorem query_gives : Gives (Form.construct .query) (Statement.Shaped Expr.AreValues) :=
  .construct fun _ shaped => shaped

private theorem row_gives : Gives Form.row (Expr.Shaped Expr.AreValues) := .row fun _ shaped => shaped

private theorem conditions_give :
    Gives conditions fun es => es ≠ [] ∧ Expr.ShapedList Expr.AreValues es :=
  condition_gives.separated.weaken fun _ met => ⟨met.1, Expr.shapedList_iff.mpr met.2⟩

private theorem arguments_give : Gives arguments (Expr.ShapedList Expr.AreValues) :=
  .parens (.or (conditions_give.weaken fun _ met => met.2) (.pure trivial))

private theorem case_gives : Gives case (Expr.Shaped Expr.AreValues) := by
  have branch : Gives case.branch fun b => b.1.Shaped Expr.AreValues ∧ b.2.Shaped Expr.AreValues :=
    .seq condition_gives.after (.map (.after (condition_gives.weaken fun _ first _ second => ⟨first, second⟩)))
  have operand : Gives (Form.optional Form.row) (Expr.ShapedOption Expr.AreValues) :=
    row_gives.optional.weaken fun _ met => Expr.shapedOption_iff.mpr met
  refine .before (.seq clause_gives (.seq branch.many (.seq branch (.map (.after (operand.weaken ?_))))))
  intro o shaped first one rest all otherwise last
  exact ⟨by simp, shaped, Expr.shapedBranches_iff.mpr (List.forall_mem_cons.mpr ⟨one, all⟩), last⟩

private theorem primary_gives : Gives primary (Expr.Shaped Expr.AreValues) := by
  have literal : Gives literal (Expr.Shaped Expr.AreValues) := by
    have leaf : ∀ {β : Type} {F : Form β} {f : β → Expr}, (∀ b, (f b).Shaped Expr.AreValues) →
        Gives (f <$> F) (Expr.Shaped Expr.AreValues) :=
      fun {_ F _} shaped => .map ((Gives.anything F).weaken fun b _ => shaped b)
    exact .or (leaf fun _ => trivial) (.or (leaf fun _ => trivial) (.or (leaf fun _ => trivial)
      (.or (leaf fun _ => trivial) (leaf fun _ => trivial))))
  have parameter : Gives (.parameter Expr.parameter) (Expr.Shaped Expr.AreValues) :=
    Meets.parameter fun _ _ => trivial
  have sign : ∀ {k : Kind} {op : UnaryOp}, Gives (.unary op <$> (Form.mark k *> Form.construct .signed))
      (Expr.Shaped Expr.AreValues) :=
    .map (.after (.construct fun _ shaped => shaped))
  have column : Gives column (Expr.Shaped Expr.AreValues) := by
    refine .or (.before (.map ((Gives.anything _).weaken fun _ _ _ => rfl))) (.map (names_give.weaken ?_))
    exact fun names some_ none_ => absurd none_ some_
  have call : Gives call (Expr.Shaped Expr.AreValues) := by
    have function : Gives (path <|> (fun n => [n]) <$> functionWord) fun names => names ≠ [] :=
      .or names_give (.map ((Gives.anything _).weaken fun _ _ => by simp))
    exact .seq arguments_give (.map (function.weaken fun _ some_ _ shaped => ⟨some_, shaped⟩))
  have parenthesis : Gives parenthesis (Expr.Shaped Expr.AreValues) := by
    refine Meets.prefer query_gives conditions_give (fun _ _ _ _ _ shaped => shaped) ?_
    rintro _ _ es _ _ _ _ ⟨some_, shaped⟩
    match es with
    | [e] => exact shaped.1
    | _ :: _ :: _ => exact ⟨by simp, shaped⟩
  exact .or literal (.or parameter (.or (.or sign sign) (.or case_gives (.or column (.or call parenthesis)))))

private theorem chain_gives {operator : Kind → Option BinaryOp} {F : Form Expr}
    (h : Gives F (Expr.Shaped Expr.AreValues)) :
    Gives (Form.chain operator F) (Expr.Shaped Expr.AreValues) :=
  .fold h (P := fun next => next.2.Shaped Expr.AreValues)
    (.seq h (.map ((Gives.anything _).weaken fun _ _ _ shaped => shaped))) fun _ _ left right => ⟨left, right⟩

/-- What follows the operand of a predicate keeps the shape of the operand. -/
private def Keeps (f : Expr → Expr) : Prop :=
  ∀ operand, operand.Shaped Expr.AreValues → (f operand).Shaped Expr.AreValues

private theorem comparisonEnd_gives : Gives comparisonEnd Keeps := by
  have operator : Gives comparison fun op => op.isComparison = true := by
    refine Meets.oneOf fun _ s op found => ?_
    exact Form.terms_all (p := fun _ op => op.isComparison) rfl found
  refine .or (.seq row_gives (.map ((Gives.anything _).weaken ?_)))
    (.seq query_gives.parens (.seq (.anything _) (.map (operator.weaken ?_))))
  · exact fun _ _ _ right _ left => ⟨left, right⟩
  · exact fun _ compares _ _ _ shaped _ left => ⟨compares, left, shaped⟩

private theorem inEnd_gives : Gives inEnd Keeps := by
  have inside : Gives (.prefer (Form.construct .query) conditions id)
      (Sum.elim (Statement.Shaped Expr.AreValues)
        fun es => Expr.AreValues es ∧ Expr.ShapedList Expr.AreValues es) := by
    refine Meets.prefer query_gives conditions_give (fun _ _ _ _ _ shaped => shaped) ?_
    intro n w es _ _ allowed derives met
    -- a list that is written like a query is read as a query
    exact ⟨⟨met.1, fun query => allowed (derives.conditions_query_iff.mpr query)⟩, met.2⟩
  refine .seq inside.after (.map ((Gives.anything _).weaken ?_))
  rintro _ _ (query | values) shaped _ operand
  · exact ⟨operand, shaped⟩
  · exact ⟨shaped.1, operand, shaped.2⟩

private theorem predicate_gives : Gives predicate (Expr.Shaped Expr.AreValues) := by
  have null : Gives nullEnd Keeps :=
    .before (.map ((Gives.anything _).weaken fun _ _ _ operand => operand))
  have between : Gives betweenEnd Keeps := by
    refine .seq row_gives.after (.seq row_gives.after (.map ((Gives.anything _).weaken ?_)))
    exact fun _ _ _ low _ high _ operand => ⟨operand, low, high⟩
  have like : Gives likeEnd Keeps := by
    refine .seq row_gives.after.optional (.seq row_gives.after (.map ((Gives.anything _).weaken ?_)))
    exact fun _ _ _ pattern _ escape _ operand => ⟨operand, pattern, Expr.shapedOption_iff.mpr escape⟩
  have last : Gives (comparisonEnd <|> nullEnd <|> betweenEnd <|> inEnd <|> likeEnd <|> pure id) Keeps :=
    .or comparisonEnd_gives (.or null (.or between (.or inEnd_gives (.or like
      (.pure fun _ operand => operand)))))
  exact .or (.map query_gives.parens.after) (.seq last (.map (row_gives.weaken
    fun operand shaped _ keeps => keeps operand shaped)))

private theorem negation_gives : Gives negation (Expr.Shaped Expr.AreValues) := by
  have test : Gives ((fun negated value => Expr.is value negated) <$> (Form.word .IS *> Form.flag .NOT) <*>
      truthValue <|> pure id) Keeps :=
    .or (.seq (.anything _) (.map ((Gives.anything _).weaken fun _ _ _ _ _ operand => operand)))
      (.pure fun _ operand => operand)
  exact .or (.map (.after (.construct fun _ shaped => shaped))) (.seq test (.map (predicate_gives.weaken
    fun operand shaped _ keeps => keeps operand shaped)))

private theorem table_gives : Gives table (TableRef.Shaped Expr.AreValues) := by
  have primary : Gives tablePrimary (TableRef.Shaped Expr.AreValues) := by
    refine .or (.seq (.anything _) (.map (names_give.weaken fun _ some_ _ _ => some_))) (.or ?_
      (.parens (.construct fun _ shaped => shaped)))
    exact .seq (.anything _) (.seq (.anything _) (.map (query_gives.parens.weaken fun _ shaped _ _ _ _ => shaped)))
  have conditioned : Gives conditionedJoin fun kind => kind.requiresCondition = true :=
    .before (.map ((Gives.anything _).weaken fun _ _ => rfl))
  have plain : Gives plainJoin fun kind => kind.requiresCondition = false :=
    .or (.map ((Gives.anything _).weaken fun _ _ => rfl))
      (.before (.map ((Gives.anything _).weaken fun _ _ => rfl)))
  have next : Gives joinEnd fun j => j.2.2.isSome = j.1.requiresCondition ∧
      j.2.1.Shaped Expr.AreValues ∧ Expr.ShapedOption Expr.AreValues j.2.2 := by
    refine .or (.seq condition_gives.after (.seq primary (.map (conditioned.weaken ?_))))
      (.seq primary (.map (plain.weaken ?_)))
    · exact fun _ requires _ right _ on => ⟨requires.symm, right, on⟩
    · exact fun _ requires _ right => ⟨requires.symm, right, trivial⟩
  exact .fold primary next fun _ _ left met => ⟨met.1, left, met.2.1, met.2.2⟩

private theorem selectBlock_gives : Gives selectBlock (SelectBlock.Shaped Expr.AreValues) := by
  have projection : Gives projection fun p => p.expr.Shaped Expr.AreValues :=
    .seq (.anything _) (.map (row_gives.weaken fun _ shaped _ _ => shaped))
  have tables : Gives tables (TableRef.ShapedList Expr.AreValues) := by
    have entry : Gives (Form.construct .table) (TableRef.Shaped Expr.AreValues) := .construct fun _ shaped => shaped
    exact .or (entry.separated.after.weaken fun _ met => TableRef.shapedList_iff.mpr met.2) (.pure trivial)
  have group : Gives (Form.optional grouping) (Grouping.ShapedOption Expr.AreValues) := by
    refine .or (.map (.seq row_gives.separated (.map ((Gives.anything _).weaken ?_)))) (.pure trivial)
    exact fun _ _ _ met => ⟨met.1, Expr.shapedList_iff.mpr met.2⟩
  refine .seq clause_gives (.seq group (.seq clause_gives (.seq tables (.seq projection.separated
    (.map ((Gives.anything _).weaken ?_))))))
  exact fun _ _ _ entries _ ts _ filter _ g _ having =>
    ⟨entries.1, Projection.shapedList_iff.mpr entries.2, ts, filter, g, having⟩

private theorem setChain_gives {operator : Kind → Option SetOp} {F : Form Body}
    (h : Gives F (Body.Shaped Expr.AreValues)) :
    Gives (setChain operator F) (Body.Shaped Expr.AreValues) :=
  .fold h (P := fun next => next.2.2.Shaped Expr.AreValues)
    (.seq h (.seq (.anything _) (.map ((Gives.anything _).weaken fun _ _ _ _ _ shaped => shaped))))
    fun _ _ left right => ⟨left, right⟩

private theorem body_gives : Gives body (Body.Shaped Expr.AreValues) :=
  setChain_gives (setChain_gives (.or (.map selectBlock_gives) (.parens (.construct fun _ shaped => shaped))))

private theorem query_rule_gives : Gives query (Statement.Shaped Expr.AreValues) := by
  have named : Gives namedQuery fun q => q.query.Shaped Expr.AreValues :=
    .seq query_gives.parens.after (.seq (.anything _) (.map ((Gives.anything _).weaken
      fun _ _ _ _ _ shaped => shaped)))
  have clause : Gives (Form.optional withClause) (WithClause.ShapedOption Expr.AreValues) := by
    refine .or (.map (.seq named.separated (.map ((Gives.anything _).weaken ?_)))) (.pure trivial)
    exact fun _ _ _ met => ⟨met.1, NamedQuery.shapedList_iff.mpr met.2⟩
  have order : Gives orderBy (OrderItem.ShapedList Expr.AreValues) := by
    have item : Gives orderItem fun k => k.expr.Shaped Expr.AreValues :=
      .seq (.anything _) (.map (row_gives.weaken fun _ shaped _ _ => shaped))
    exact .or (item.separated.after.weaken fun _ met => OrderItem.shapedList_iff.mpr met.2) (.pure trivial)
  exact .seq order (.seq body_gives (.map (clause.weaken fun _ first _ second _ third => ⟨first, second, third⟩)))

private theorem rules_give (X : Nonterminal) : Meets firstReading shapes (rules X) (shapes X) :=
  match X with
  | .row => chain_gives (chain_gives (chain_gives primary_gives))
  | .construct .query => query_rule_gives
  | .construct .body => body_gives
  | .construct .condition => chain_gives (chain_gives negation_gives)
  | .construct .negated => negation_gives
  | .construct .signed => primary_gives
  | .construct .table => table_gives

theorem Derives.shaped {e : Parse.Entry} {n : Nat} {w : Word} {a : e.Result}
    (h : Derives firstReading (Form.construct e) n w a) : e.Shaped Expr.AreValues a :=
  Meets.holds rules_give (Meets.construct fun _ _ _ shaped => shaped) h

end Grammar

end SelectSyntax
