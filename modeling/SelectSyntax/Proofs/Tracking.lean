import SelectSyntax.Proofs.Tracking.Basic

/-!
The rules of the grammar on tokens that match: each takes the same way on both, and so does every construct, at
whatever depth. A rule that is called from outside gives the same tree, but for the numbers of the parameters.
-/

set_option autoImplicit false
set_option relaxedAutoImplicit false

namespace SelectSyntax

namespace Parse

open Token (Kind)
open SyntaxTree (BinaryOp Body Expr Grouping JoinKind JoinSide NamedQuery OrderItem Projection SelectBlock
  SetOp SetQuantifier Statement TableRef WithClause)

namespace Tracking

section
variable {k : Nat}

private theorem optionalAlias : Tracking k id Parse.optionalAlias Parse.optionalAlias := by
  apply step (eat _)
  intro as
  cases as with
  | true => exact .map identifier fun _ => rfl
  | false => exact identifier?

private theorem requiredAlias : Tracking k id Parse.requiredAlias Parse.requiredAlias := by
  apply step (eat _)
  intro as
  cases as with
  | true => exact identifier
  | false =>
      apply step identifier?
      intro name
      cases name with
      | some name => exact .pure rfl
      | none => exact .unexpected _

private theorem names {kind : Kind} :
    Tracking k id (Parse.separated kind Parse.identifier) (Parse.separated kind Parse.identifier) := by
  have list : Tracking k (List.map id) (Parse.separated kind Parse.identifier) _ := .separated identifier
  rwa [List.map_id_fun] at list

private theorem identifierList : Tracking k id Parse.identifierList Parse.identifierList := by
  apply step (expect _)
  intro _
  apply step names
  intro names
  apply step (eat _)
  intro closes
  cases closes with
  | true => exact .pure rfl
  | false => exact .unexpected _

private theorem optionalColumns : Tracking k id Parse.optionalColumns Parse.optionalColumns := by
  apply look
  intro kind
  split
  · exact identifierList
  · exact .pure rfl

private theorem columnPath : Tracking k id Parse.columnPath Parse.columnPath := by
  have counts : ∀ n, Tracking k id (columnPathWithin n) (columnPathWithin n) := by
    intro n
    induction n with
    | zero => exact .unexpected _
    | succ n ih =>
        apply step (eat _)
        intro star
        cases star with
        | true => exact .pure rfl
        | false =>
            apply step identifier?
            intro name
            cases name with
            | none => exact .unexpected _
            | some name =>
                apply step (eat _)
                intro dot
                cases dot with
                | true => exact .step ih fun _ => .pure rfl
                | false => exact .pure rfl
  have path := sized fun n => counts (n + 1)
  exact path

end

section
variable {k : Nat} {i : Inner} (inside : ∀ e, Tracking k (e.shift k) (i e) (i e))
include inside

private theorem conditions : Tracking k (List.map (Expr.shift k)) (Parse.conditions i) (Parse.conditions i) :=
  .commaList (inside .condition)

private theorem arguments : Tracking k (List.map (Expr.shift k)) (Parse.arguments i) (Parse.arguments i) := by
  apply step (expect _)
  intro _
  apply step (eat _)
  intro none_
  cases none_ with
  | true => exact .pure rfl
  | false =>
      apply bind (conditions inside)
      intro args
      apply step (eat _)
      intro closes
      cases closes with
      | true => exact .pure rfl
      | false => exact .unexpected _

private theorem columnOrCall : Tracking k (Expr.shift k) (Parse.columnOrCall i) (Parse.columnOrCall i) := by
  apply step columnPath
  intro path
  apply look
  intro kind
  split
  · exact .bind (arguments inside) fun args => .pure (by rw [Expr.shift, Expr.shiftList_eq])
  · exact .pure rfl

private theorem branch? : Tracking k (Option.map (Prod.map (Expr.shift k) (Expr.shift k)))
    (Parse.branch? i) (Parse.branch? i) := by
  apply step (eat _)
  intro when_
  cases when_ with
  | true =>
      exact .bind (inside .condition) fun _ => .step (.expect _) fun _ =>
        .bind (inside .condition) fun _ => .pure rfl
  | false => exact .pure rfl

private theorem caseEnd (operand : Option Expr) (branches : List (Expr × Expr)) :
    Tracking k (Expr.shift k) (Parse.caseEnd i operand branches)
      (Parse.caseEnd i (operand.map (Expr.shift k))
        (branches.map (Prod.map (Expr.shift k) (Expr.shift k)))) := by
  apply bind (after? (inside .condition))
  intro otherwise
  apply step (eat _)
  intro ends
  cases ends with
  | true => exact .pure (by simp [Expr.shift, Entry.shift])
  | false =>
      cases otherwise with
      | some _ => exact .unexpected _
      | none => exact .unexpected _

private theorem caseExpr {r : Parser Expr} (row : Tracking k (Expr.shift k) r r) :
    Tracking k (Expr.shift k) (Parse.caseExpr i r) (Parse.caseExpr i r) := by
  have rest : ∀ operand : Option Expr, Tracking k (Expr.shift k)
      (Parse.many (Parse.branch? i) >>= fun branches =>
        if branches.isEmpty then Parse.unexpected [.keyword .WHEN] else Parse.caseEnd i operand branches)
      (Parse.many (Parse.branch? i) >>= fun branches =>
        if branches.isEmpty then Parse.unexpected [.keyword .WHEN]
        else Parse.caseEnd i (operand.map (Expr.shift k)) branches) := by
    intro operand
    apply bind (many (branch? inside))
    intro branches
    cases branches with
    | nil => exact .unexpected _
    | cons b branches => exact caseEnd inside operand (b :: branches)
  apply step (expect _)
  intro _
  apply look
  intro kind
  simp only []
  split
  · exact .bind (.pure rfl) rest
  · exact .bind (.map row fun _ => rfl) rest

variable (parens : Tracking k (Sum.map (Statement.shift k) (List.map (Expr.shift k)))
  (Parse.parenthesized (i .query) (Parse.conditions i)) (Parse.parenthesized (i .query) (Parse.conditions i)))

omit inside in
private theorem ofParenthesis_map (x : Statement ⊕ List Expr) :
    (ofParenthesis x).shift k =
      ofParenthesis (x.map (Statement.shift k) (List.map (Expr.shift k))) := by
  rcases x with query | _ | ⟨item, _ | ⟨_, _⟩⟩
  · rfl
  · rfl
  · rfl
  · simp [ofParenthesis, Expr.shift]

include parens

private theorem primary {r : Parser Expr} (row : Tracking k (Expr.shift k) r r) :
    Tracking k (Expr.shift k) (Parse.primary i r) (Parse.primary i r) := by
  refine .token (fun t t' matching => ?_) fun t => ?_
  · -- the text of a token is looked at only where matching tokens have one value
    obtain ⟨kind, raw, place, stop⟩ := t
    obtain ⟨kind', raw', place', stop'⟩ := t'
    obtain ⟨rfl, value⟩ := matching
    cases kind with
    | number =>
        obtain rfl : raw = raw' := value rfl
        rfl
    | string =>
        have same := value rfl
        simp only [same]
    | keyword word =>
        by_cases names : word.isFunctionName = true
        · obtain rfl : raw = raw' := value names
          rfl
        · cases word <;> first | rfl | simp [Token.Keyword.isFunctionName] at names
    | _ => rfl
  · split
    · exact .step .advance fun _ => .pure rfl
    · exact .step .advance fun _ => .pure rfl
    · exact .step .advance fun _ => .pure rfl
    · exact .step .advance fun _ => .pure rfl
    · exact .step .advance fun _ => .pure rfl
    · exact .map .parameter fun _ => rfl
    · exact .step .advance fun _ => .map (inside .signed) fun _ => rfl
    · exact .step .advance fun _ => .map (inside .signed) fun _ => rfl
    · exact caseExpr inside row
    · exact columnOrCall inside
    · exact columnOrCall inside
    · exact .map parens ofParenthesis_map
    · split
      · exact .step .advance fun _ => .map (arguments inside) fun _ => by rw [Expr.shift, Expr.shiftList_eq]
      · exact .unexpected _
    · exact .unexpected _

private theorem row : Tracking k (Expr.shift k) (Parse.row i) (Parse.row i) := by
  have counts : ∀ n, Tracking k (Expr.shift k) (rowWithin i n) (rowWithin i n) := by
    intro n
    induction n with
    | zero => exact .unexpected _
    | succ n ih => exact .chain (.chain (.chain (primary inside parens ih)))
  have row := sized fun n => counts (n + 1)
  exact row

omit parens in
private theorem query :
    Tracking k (Statement.shift k) (Parse.enclosed (i .query)) (Parse.enclosed (i .query)) :=
  .enclosed (inside .query)

private theorem comparisonEnd (left : Expr) (op : BinaryOp) : Tracking k (Expr.shift k)
    (Parse.comparisonEnd i left op) (Parse.comparisonEnd i (left.shift k) op) := by
  apply step (take? _)
  intro quantifier
  cases quantifier with
  | some q => exact .map (query inside) fun _ => rfl
  | none => exact .map (row inside parens) fun _ => rfl

private theorem betweenEnd (negated : Bool) (operand : Expr) : Tracking k (Expr.shift k)
    (Parse.betweenEnd i negated operand) (Parse.betweenEnd i negated (operand.shift k)) := by
  apply step (expect _)
  intro _
  apply bind (row inside parens)
  intro low
  apply step (expect _)
  intro _
  apply bind (row inside parens)
  intro high
  exact pure rfl

omit inside in
private theorem inEnd (negated : Bool) (operand : Expr) : Tracking k (Expr.shift k)
    (Parse.inEnd i negated operand) (Parse.inEnd i negated (operand.shift k)) := by
  apply step (expect _)
  intro _
  apply bind parens
  intro inside
  cases inside with
  | inl query => exact .pure rfl
  | inr values => exact .pure (by simp [Expr.shift])

private theorem likeEnd (negated : Bool) (operand : Expr) : Tracking k (Expr.shift k)
    (Parse.likeEnd i negated operand) (Parse.likeEnd i negated (operand.shift k)) := by
  apply step (expect _)
  intro _
  apply bind (row inside parens)
  intro pattern
  apply bind (after? (row inside parens))
  intro escape
  exact pure (by rw [Expr.shift, Expr.shiftOption_eq])

private theorem negatedEnd (operand : Expr) : Tracking k (Expr.shift k)
    (Parse.negatedEnd i operand) (Parse.negatedEnd i (operand.shift k)) := by
  apply look
  intro kind
  split
  · exact betweenEnd inside parens true operand
  · exact inEnd parens true operand
  · exact likeEnd inside parens true operand
  · exact .unexpected _

private theorem predicateEnd (operand : Expr) : Tracking k (Expr.shift k)
    (Parse.predicateEnd i operand) (Parse.predicateEnd i (operand.shift k)) := by
  apply step isNull?
  intro null
  cases null with
  | some negated => exact .pure rfl
  | none =>
      apply look
      intro kind
      split
      · exact .step .advance fun _ => negatedEnd inside parens operand
      · exact betweenEnd inside parens false operand
      · exact inEnd parens false operand
      · exact likeEnd inside parens false operand
      · exact .pure rfl

private theorem predicate : Tracking k (Expr.shift k) (Parse.predicate i) (Parse.predicate i) := by
  apply step (eat _)
  intro exists_
  cases exists_ with
  | true => exact .map (query inside) fun _ => rfl
  | false =>
      apply look
      intro kind
      split
      · apply bind (row inside parens)
        intro left
        apply step (take? _)
        intro comparison
        cases comparison with
        | some op => exact comparisonEnd inside parens left op
        | none => exact predicateEnd inside parens left
      · exact .unexpected _

private theorem truthTest : Tracking k (Expr.shift k) (Parse.truthTest i) (Parse.truthTest i) := by
  apply bind (predicate inside parens)
  intro operand
  apply step (eat _)
  intro is
  cases is with
  | false => exact .pure rfl
  | true =>
      apply step (eat _)
      intro negated
      apply step (take? _)
      intro value
      cases value with
      | some value => exact .pure rfl
      | none => exact .unexpected _

private theorem negation : Tracking k (Expr.shift k) (Parse.negation i) (Parse.negation i) := by
  apply step (eat _)
  intro not
  cases not with
  | true => exact .map (inside .negated) fun _ => rfl
  | false => exact truthTest inside parens

private theorem condition : Tracking k (Expr.shift k) (Parse.condition i) (Parse.condition i) :=
  .chain (.chain (negation inside parens))

section
omit inside parens

private theorem joinSide? : Tracking k id Parse.joinSide? Parse.joinSide? := by
  apply look
  intro kind
  split
  · exact .pure rfl
  · exact .step .advance fun _ => .pure rfl
  · exact .step .advance fun _ => .step (.eat _) fun _ => .pure rfl
  · exact .step .advance fun _ => .step (.eat _) fun _ => .pure rfl
  · exact .step .advance fun _ => .step (.eat _) fun _ => .pure rfl
  · exact .pure rfl

private theorem joinKind? : Tracking k id Parse.joinKind? Parse.joinKind? := by
  apply step (eat _)
  intro cross
  cases cross with
  | true => exact .step (.expect _) fun _ => .pure rfl
  | false =>
      apply step (eat _)
      intro natural
      apply step joinSide?
      intro side
      cases side with
      | none =>
          cases natural with
          | true => exact .unexpected _
          | false => exact .pure rfl
      | some side =>
          apply step (eat _)
          intro join
          cases join with
          | true => exact .pure rfl
          | false => exact .unexpected _

end

section
omit parens
variable (tables : Tracking k (Sum.map (Statement.shift k) (TableRef.shift k))
  (Parse.parenthesized (i .query) (i .table)) (Parse.parenthesized (i .query) (i .table)))
include tables

omit inside in
private theorem tablePrimary : Tracking k (TableRef.shift k) (Parse.tablePrimary i) (Parse.tablePrimary i) := by
  apply look
  intro kind
  split
  · exact .step names fun _ => .step optionalAlias fun _ => .pure rfl
  · apply bind tables
    intro inside
    cases inside with
    | inl query => exact .step requiredAlias fun _ => .step optionalColumns fun _ => .pure rfl
    | inr table => exact .pure rfl
  · exact .unexpected _

omit tables in
private theorem joinCondition (kind : JoinKind) : Tracking k (Option.map (Expr.shift k))
    (Parse.joinCondition i kind) (Parse.joinCondition i kind) := by
  unfold Parse.joinCondition
  split
  · exact .step (.expect _) fun _ => .map (inside .condition) fun _ => rfl
  · apply look
    intro kind
    split
    · exact .fail _
    · exact .pure rfl

private theorem join? :
    Tracking k (Option.map (Prod.map id (Prod.map (TableRef.shift k) (Option.map (Expr.shift k)))))
      (Parse.join? i) (Parse.join? i) := by
  apply step joinKind?
  intro kind
  cases kind with
  | none => exact .pure rfl
  | some kind =>
      exact .bind (tablePrimary tables) fun _ => .bind (joinCondition inside kind) fun _ => .pure rfl

private theorem table : Tracking k (TableRef.shift k) (Parse.table i) (Parse.table i) :=
  .fold (fun left join => by simp [TableRef.shift]) (tablePrimary tables) (join? inside tables)

end

section
omit inside parens

private theorem setQuantifier : Tracking k id Parse.setQuantifier Parse.setQuantifier :=
  .step (.take? _) fun _ => .pure rfl

private theorem setChain {operator : Kind → Option SetOp} {p : Parser Body}
    (h : Tracking k (Body.shift k) p p) :
    Tracking k (Body.shift k) (setChain operator p) (setChain operator p) := by
  refine .fold (j := Prod.map id (Prod.map id (Body.shift k))) (fun _ _ => rfl) h ?_
  apply step (take? _)
  intro op
  cases op with
  | none => exact .pure rfl
  | some op => exact .step setQuantifier fun _ => .bind h fun _ => .pure rfl

end

omit parens in
private theorem tables : Tracking k (List.map (TableRef.shift k)) (Parse.tables i) (Parse.tables i) := by
  apply step (eat _)
  intro from_
  cases from_ with
  | true => exact .commaList (inside .table)
  | false => exact .pure rfl

omit parens in
private theorem namedQuery :
    Tracking k (NamedQuery.shift k) (Parse.namedQuery i) (Parse.namedQuery i) := by
  apply step identifier
  intro name
  apply step optionalColumns
  intro columns
  apply step (eat _)
  intro as
  cases as with
  | true => exact .bind (query inside) fun _ => .pure rfl
  | false =>
      simp only [Bool.false_eq_true, if_false]
      split
      · exact .unexpected _
      · exact .unexpected _

omit parens in
private theorem withClause? :
    Tracking k (Option.map (WithClause.shift k)) (Parse.withClause? i) (Parse.withClause? i) := by
  apply step (eat _)
  intro with_
  cases with_ with
  | true =>
      exact .step (.eat _) fun _ => .bind (.commaList (namedQuery inside)) fun _ =>
        .pure (by simp [WithClause.shift])
  | false => exact .pure rfl

private theorem orderItem : Tracking k (OrderItem.shift k) (Parse.orderItem i) (Parse.orderItem i) :=
  .bind (row inside parens) fun _ => .step (.take? _) fun _ => .pure rfl

private theorem projection : Tracking k (Projection.shift k) (Parse.projection i) (Parse.projection i) :=
  .bind (row inside parens) fun _ => .step optionalAlias fun _ => .pure rfl

private theorem grouping? :
    Tracking k (Option.map (Grouping.shift k)) (Parse.grouping? i) (Parse.grouping? i) := by
  apply step (eat _)
  intro group
  cases group with
  | true =>
      exact .step (.expect _) fun _ => .step setQuantifier fun _ =>
        .bind (.commaList (row inside parens)) fun _ => .pure (by simp [Grouping.shift])
  | false => exact .pure rfl

private theorem selectBlock : Tracking k (SelectBlock.shift k) (Parse.selectBlock i) (Parse.selectBlock i) := by
  have clause : ∀ word, Tracking k (Option.map (Expr.shift k)) (Parse.after? (.keyword word) (i .condition))
      (Parse.after? (.keyword word) (i .condition)) := fun _ => after? (inside .condition)
  apply step (expect _)
  intro _
  apply step setQuantifier
  intro quantifier
  apply bind (commaList (projection inside parens))
  intro projections
  apply bind (tables inside)
  intro entries
  apply bind (clause _)
  intro filter
  apply bind (grouping? inside parens)
  intro grouping
  apply bind (clause _)
  intro having
  exact pure (by simp [SelectBlock.shift])

private theorem bodyPrimary : Tracking k (Body.shift k) (Parse.bodyPrimary i) (Parse.bodyPrimary i) := by
  apply look
  intro kind
  split
  · exact .map (selectBlock inside parens) fun _ => rfl
  · exact .enclosed (inside .body)
  · exact .unexpected _

private theorem body : Tracking k (Body.shift k) (Parse.body i) (Parse.body i) :=
  setChain (setChain (bodyPrimary inside parens))

private theorem orderBy :
    Tracking k (List.map (OrderItem.shift k)) (Parse.orderBy i) (Parse.orderBy i) := by
  apply step (eat _)
  intro order
  cases order with
  | true => exact .step (.expect _) fun _ => .commaList (orderItem inside parens)
  | false => exact .pure rfl

private theorem wholeQuery : Tracking k (Statement.shift k) (Parse.query i) (Parse.query i) := by
  apply bind (withClause? inside)
  intro withClause
  apply bind (body inside parens)
  intro queryBody
  apply bind (orderBy inside parens)
  intro items
  exact pure (by simp [Statement.shift])

end

theorem rule {k : Nat} {i : Inner} (inside : ∀ e, Tracking k (e.shift k) (i e) (i e)) (e : Entry) :
    Tracking k (e.shift k) (rule i e) (rule i e) := by
  have parens := parenthesized (inside .query) (conditions inside)
  cases e with
  | query => exact wholeQuery inside parens
  | body => exact body inside parens
  | condition => exact condition inside parens
  | negated => exact negation inside parens
  | signed => exact primary inside parens (row inside parens)
  | table => exact table inside (parenthesized (inside .query) (inside .table))

/-- Runs of parsers that go forward end with an image of the value, or with one cause, and in both cases among the
tokens that they started from. -/
theorem outcomes {α β : Type} {k : Nat} {g : α → β} {p : Parser α} {p' : Parser β} (h : Tracking k g p p')
    (forward : Forward p) (forward' : Forward p') {s s' : State} (complete : s.Complete)
    (complete' : s'.Complete) (tracks : s.Tracks k s') :
    ∃ t t', t.Tracks k t' ∧ t.Within s ∧ t'.Within s' ∧
      ((∃ a, p s = .ok a t ∧ p' s' = .ok (g a) t') ∨
        ∃ cause c c', p s = .error ⟨cause, c⟩ t ∧ p' s' = .error ⟨cause, c'⟩ t' ∧ c.Matches c' ∧
          c.Within s.cursor ∧ c'.Within s'.cursor) := by
  have tracked := h s s' tracks
  generalize run : p s = r at tracked
  generalize run' : p' s' = r' at tracked
  cases tracked with
  | @ok a t t' states =>
      have within := forward.of_ok complete run
      have within' := forward'.of_ok complete' run'
      exact ⟨t, t', states, within, within', Or.inl ⟨a, rfl, rfl⟩⟩
  | @error cause c c' t t' offending states =>
      obtain ⟨place, within⟩ := forward.of_error complete run
      obtain ⟨place', within'⟩ := forward'.of_error complete' run'
      exact ⟨t, t', states, within, within', Or.inr ⟨cause, c, c', rfl, rfl, offending, place, place'⟩⟩

end Tracking

theorem levelled_tracking (k limit levels : Nat) (e : Entry) :
    Tracking k (e.shift k) (levelled limit levels e) (levelled limit levels e) := by
  induction levels generalizing e with
  | zero => exact .fail _
  | succ levels ih => exact .rule ih e

end Parse

namespace Session.Call

open Parse (Tracking levelled_tracking)
open SyntaxTree (Expr Statement)

/-- What a rule gives, with the number of each parameter raised. -/
def shift (k : Nat) : (c : Call) → c.Result → c.Result
  | .statement | .query => Statement.shift k
  | .condition => Expr.shift k

/-- A rule does the same on matching tokens under one configuration, at one depth with as many tokens left. -/
theorem tracking (c : Call) (k : Nat) {s s' : Session} (config : s.config = s'.config)
    (depth : s.depth = s'.depth) (tokens : s.state.remaining = s'.state.remaining) :
    Tracking k (c.shift k) (c.parser s) (c.parser s') := by
  have constructs : ∀ e, Tracking k (e.shift k) (s.inside e) (s'.inside e) := by
    intro e
    have limit : s.limit = s'.limit := by rw [Session.limit, Session.limit, config, tokens]
    have levels : s.levels = s'.levels := by rw [Session.levels, Session.levels, config, depth, tokens]
    rw [Session.inside, Session.inside, limit, levels]
    exact levelled_tracking k _ _ e
  cases c with
  | statement =>
      apply Tracking.bind (constructs .query)
      intro statement
      apply Tracking.step (.eat _)
      intro _
      apply Tracking.look
      intro kind
      rw [config]
      split
      · exact .unexpected _
      · exact .pure rfl
  | query => exact constructs .query
  | condition => exact constructs .condition

end Session.Call

end SelectSyntax
