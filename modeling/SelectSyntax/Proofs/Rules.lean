import SelectSyntax.Proofs.Alike

/-!
The rules of the grammar, run side by side over two families of parsers of the constructs one level
further in: the rules are alike whenever the families are. The choice between the two readings of a
parenthesis is left to the caller, since not everything that holds of two readings holds of the choice.
-/

set_option autoImplicit false
set_option relaxedAutoImplicit false

namespace SelectSyntax.Parse

open Token (Kind)
open SyntaxTree (BinaryOp Body Expr SetOp SetQuantifier)

/-- The kinds of operators, and of the keywords that stand beside operands as operators do. -/
def isOperator : Kind → Bool
  | .caret | .percent | .plus | .minus | .star | .slash | .eq | .notEq | .lt | .ltEq | .gt | .gtEq
  | .concat => true
  | .keyword .OR | .keyword .AND | .keyword .ALL | .keyword .SOME | .keyword .ANY | .keyword .DISTINCT
  | .keyword .ASC | .keyword .DESC | .keyword .UNION | .keyword .EXCEPT | .keyword .INTERSECT => true
  | _ => false

/-- A function of kinds that has values for operators only. -/
def OfOperators {α : Type} (read : Kind → Option α) : Prop :=
  ∀ k a, read k = some a → isOperator k = true

theorem OfOperators.live {α : Type} {read : Kind → Option α} (h : OfOperators read) (k : Kind) (a : α)
    (found : read k = some a) : k.isTerminal = false := by
  have operator := h k a found
  unfold isOperator at operator
  split at operator <;> first | rfl | cases operator

theorem sum?_operators : OfOperators BinaryOp.sum? := by
  intro k a found
  unfold BinaryOp.sum? at found
  split at found <;> first | rfl | cases found

theorem product?_operators : OfOperators BinaryOp.product? := by
  intro k a found
  unfold BinaryOp.product? at found
  split at found <;> first | rfl | cases found

theorem power?_operators : OfOperators power? := by
  intro k a found
  unfold power? at found
  split at found <;> first | rfl | cases found

theorem comparison?_operators : OfOperators BinaryOp.comparison? := by
  intro k a found
  unfold BinaryOp.comparison? at found
  split at found <;> first | rfl | cases found

theorem and?_operators : OfOperators and? := by
  intro k a found
  unfold and? at found
  split at found <;> first | rfl | cases found

theorem or?_operators : OfOperators or? := by
  intro k a found
  unfold or? at found
  split at found <;> first | rfl | cases found

theorem quantifier?_operators : OfOperators SyntaxTree.Quantifier.ofKind? := by
  intro k a found
  unfold SyntaxTree.Quantifier.ofKind? at found
  split at found <;> first | rfl | cases found

theorem setQuantifier?_operators : OfOperators setQuantifier? := by
  intro k a found
  unfold setQuantifier? at found
  split at found <;> first | rfl | cases found

theorem direction?_operators : OfOperators direction? := by
  intro k a found
  unfold direction? at found
  split at found <;> first | rfl | cases found

theorem intersect?_operators : OfOperators intersect? := by
  intro k a found
  unfold intersect? at found
  split at found <;> first | rfl | cases found

theorem unionOrExcept?_operators : OfOperators unionOrExcept? := by
  intro k a found
  unfold unionOrExcept? at found
  split at found <;> first | rfl | cases found

theorem truthValue?_live (k : Kind) (v : SyntaxTree.TruthValue) (h : truthValue? k = some v) :
    k.isTerminal = false := by
  unfold truthValue? at h
  split at h <;> first | rfl | cases h

namespace Alike

variable {free held : Pairs} {α : Type} {p p' : Parser α}

private theorem manyWithin {item item' : Parser (Option α)}
    (h : Alike free held false none item item') (n : Nat) :
    Alike free held false none (manyWithin item n) (Parse.manyWithin item' n) := by
  induction n with
  | zero => exact .pure []
  | succ n ih =>
      refine .bind h fun a => ?_
      cases a with
      | none => exact .pure []
      | some a => exact .bind ih fun rest => .pure _

theorem many {item item' : Parser (Option α)} (h : Alike free held false none item item') :
    Alike free held false none (many item) (Parse.many item') :=
  .sized fun n => manyWithin h n

theorem after? {k : Kind} (live : k.isTerminal = false) (h : Alike free held true none p p') :
    Alike free held false none (after? k p) (Parse.after? k p') := by
  refine .step (eat_step live) fun taken => ?_
  cases taken with
  | false => exact .pure none
  | true => exact .bind h fun a => .pure _

theorem separated {k : Kind} (live : k.isTerminal = false)
    (h : Alike free held false none p p') :
    Alike free held false none (separated k p) (Parse.separated k p') :=
  .bind h fun _ => .bind (many (after? live h.weaken)) fun _ => .pure _

theorem commaList (h : Alike free held false none p p') :
    Alike free held false none (commaList p) (Parse.commaList p') :=
  separated rfl h

theorem tail? {operator : Kind → Option BinaryOp}
    (live : ∀ k op, operator k = some op → k.isTerminal = false) {p p' : Parser Expr}
    (h : Alike free held false none p p') :
    Alike free held false none (tail? operator p) (Parse.tail? operator p') := by
  refine .step (take?_step live) fun op => ?_
  cases op with
  | none => exact .pure none
  | some op => exact .bind h.weaken fun _ => .pure _

theorem chain {operator : Kind → Option BinaryOp}
    (live : ∀ k op, operator k = some op → k.isTerminal = false) {p p' : Parser Expr}
    (h : Alike free held false none p p') :
    Alike free held false none (chain operator p) (Parse.chain operator p') :=
  .bind h fun _ => .bind (many (tail? live h)) fun _ => .pure _

theorem closed {taken : Bool} {known : Option Kind} (h : Alike free held taken known p p') :
    Alike free held taken known (closed p) (Parse.closed p') :=
  .bind h fun _ => .step (expect_step rfl) fun _ => .pure _

theorem enclosed (h : Alike free held true none p p') :
    Alike free held false none (enclosed p) (Parse.enclosed p') :=
  .step (expect_step rfl) fun _ => closed h

theorem kind {β : Type} {taken : Bool} {known : Option Kind} {f f' : Kind → Parser β}
    (rest : ∀ k, Alike free held taken (some k) (f k) (f' k)) :
    Alike free held taken known (kind >>= f) (Parse.kind >>= f') :=
  .look Token.kind fun t => rest t.kind

theorem identifier {taken : Bool} {known : Option Kind} :
    Alike free held taken known identifier Parse.identifier := by
  refine .step identifier?_step fun name => ?_
  cases name with
  | none => exact .unexpected _
  | some name => exact .pure name

theorem identifierList : Alike free held false none identifierList Parse.identifierList := by
  refine .step (expect_step rfl) fun _ => .bind (commaList identifier).weaken fun _ =>
    .step (eat_step rfl) fun closes => ?_
  cases closes with
  | false => exact .unexpected _
  | true => exact .pure _

theorem optionalColumns : Alike free held false none optionalColumns Parse.optionalColumns := by
  refine .kind fun k => ?_
  by_cases opens : k = .leftParen
  · simpa only [opens, if_true] using identifierList.weaken
  · simpa only [opens, if_false] using .pure _

theorem optionalAlias : Alike free held false none optionalAlias Parse.optionalAlias := by
  refine .step (eat_step rfl) fun as => ?_
  cases as with
  | false => exact .ofStep identifier?_step
  | true => exact .map _ identifier

theorem requiredAlias : Alike free held false none requiredAlias Parse.requiredAlias := by
  refine .step (eat_step rfl) fun as => ?_
  cases as with
  | false =>
      refine .step identifier?_step fun name => ?_
      cases name with
      | none => exact .unexpected _
      | some name => exact .pure name
  | true => exact identifier

private theorem columnPathWithin (n : Nat) :
    Alike free held false none (columnPathWithin n) (Parse.columnPathWithin n) := by
  induction n with
  | zero => exact .unexpected _
  | succ n ih =>
      refine .step (eat_step rfl) fun star => ?_
      cases star with
      | true => exact .pure _
      | false =>
          refine .step identifier?_step fun name => ?_
          cases name with
          | none => exact .unexpected _
          | some name =>
              refine .step (eat_step rfl) fun dot => ?_
              cases dot with
              | false => exact .pure _
              | true => exact .bind ih.weaken fun _ => .pure _

theorem columnPath : Alike free held false none columnPath Parse.columnPath :=
  .sized fun n => columnPathWithin (n + 1)

variable {i i' : Inner} (entries : ∀ e, held e.Result (i e) (i' e))
include entries

theorem conditions : Alike free held true none (conditions i) (Parse.conditions i') :=
  .bind (.held (entries .condition)) fun _ =>
    .bind (many (after? rfl (.held (entries .condition)))).weaken fun _ => .pure _

theorem arguments : Alike free held false none (arguments i) (Parse.arguments i') := by
  refine .step (expect_step rfl) fun _ => .step (eat_step rfl) fun closes => ?_
  cases closes with
  | true => exact .pure []
  | false =>
      refine .bind (conditions entries) fun _ => .step (eat_step rfl) fun closes => ?_
      cases closes with
      | false => exact .unexpected _
      | true => exact .pure _

theorem columnOrCall : Alike free held false none (columnOrCall i) (Parse.columnOrCall i') := by
  refine .bind columnPath fun path => .kind fun k => ?_
  split
  · exact .bind (arguments entries).weaken fun _ => .pure _
  · exact .pure _

private theorem branch? : Alike free held false none (branch? i) (Parse.branch? i') := by
  refine .step (eat_step rfl) fun when => ?_
  cases when with
  | false => exact .pure none
  | true =>
      exact .bind (.held (entries .condition)) fun _ => .step (expect_step rfl) fun _ =>
        .bind (.held (entries .condition)) fun _ => .pure _

private theorem caseEnd (operand : Option Expr) (branches : List (Expr × Expr)) :
    Alike free held false none (caseEnd i operand branches) (Parse.caseEnd i' operand branches) := by
  refine .bind (after? rfl (.held (entries .condition))) fun otherwise =>
    .step (eat_step rfl) fun ends => ?_
  cases ends with
  | true => exact .pure _
  | false =>
      simp only [Bool.false_eq_true, if_false]
      split
      · exact .unexpected _
      · exact .unexpected _

theorem caseRest (operand : Option Expr) :
    Alike free held false none
      (Parse.many (Parse.branch? i) >>= fun branches =>
        if branches.isEmpty then Parse.unexpected [.keyword .WHEN]
        else Parse.caseEnd i operand branches)
      (Parse.many (Parse.branch? i') >>= fun branches =>
        if branches.isEmpty then Parse.unexpected [.keyword .WHEN]
        else Parse.caseEnd i' operand branches) := by
  refine .bind (many (branch? entries)) fun branches => ?_
  split
  · exact .unexpected _
  · exact caseEnd entries operand branches

theorem caseExpr {r r' : Parser Expr} (row : Alike free held true none r r') :
    Alike free held false none (caseExpr i r) (Parse.caseExpr i' r') := by
  refine .step (expect_step rfl) fun _ => .kind fun k => ?_
  dsimp only
  split
  · exact .bind (.pure none) fun operand => (caseRest entries operand).weaken
  · exact .bind (.map _ row.atToken) fun operand => (caseRest entries operand).weaken

variable (parens : Alike free held false none (parenthesized (i .query) (Parse.conditions i))
  (parenthesized (i' .query) (Parse.conditions i')))
include parens

theorem primary {r r' : Parser Expr} (row : Alike free held true none r r') :
    Alike free held false none (primary i r) (Parse.primary i' r') := by
  refine .look id fun t => ?_
  rcases t with ⟨k, raw, place, stop⟩
  cases k with
  | number => exact .step advance_step fun _ => .pure _
  | string => exact .step advance_step fun _ => .pure _
  | question => exact .map _ (.ofStep parameter_step)
  | plus => exact .advance rfl (.map _ (.held (entries .signed)))
  | minus => exact .advance rfl (.map _ (.held (entries .signed)))
  | identifier => exact (columnOrCall entries).weaken
  | star => exact (columnOrCall entries).weaken
  | leftParen => exact .map _ parens.weaken
  | keyword w =>
      cases w with
      | TRUE | FALSE | NULL => exact .step advance_step fun _ => .pure _
      | CASE => exact (caseExpr entries row).weaken
      | AVG | COUNT | GROUPING | MAX | MIN | NULLIF | RANK | SUM =>
          exact .step advance_step fun _ => .map _ (arguments entries).weaken
      | _ => exact .unexpected _
  | _ => exact .unexpected _

theorem sum {r r' : Parser Expr} (row : Alike free held true none r r') :
    Alike free held false none (sum i r) (Parse.sum i' r') :=
  .chain sum?_operators.live (.chain product?_operators.live (.chain power?_operators.live
    (primary entries parens row)))

theorem rowWithin (n : Nat) :
    Alike free held false none (rowWithin i n) (Parse.rowWithin i' n) := by
  induction n with
  | zero => exact .unexpected _
  | succ n ih => exact sum entries parens ih.weaken

theorem row : Alike free held false none (row i) (Parse.row i') :=
  .sized fun n => rowWithin entries parens (n + 1)

omit parens in
private theorem query : Alike free held true none (Parse.enclosed (i .query))
    (Parse.enclosed (i' .query)) :=
  (enclosed (.held (entries .query))).weaken

private theorem comparisonEnd (left : Expr) (op : BinaryOp) :
    Alike free held true none (comparisonEnd i left op) (Parse.comparisonEnd i' left op) := by
  refine .step (take?_step quantifier?_operators.live) fun quantifier => ?_
  cases quantifier with
  | none => exact .map _ (row entries parens).weaken
  | some q => exact .map _ (query entries)

theorem betweenEnd (negated : Bool) (operand : Expr) :
    Alike free held false none (betweenEnd i negated operand)
      (Parse.betweenEnd i' negated operand) :=
  .step (expect_step rfl) fun _ => .bind (row entries parens).weaken fun _ =>
    .step (expect_step rfl) fun _ => .bind (row entries parens).weaken fun _ => .pure _

omit entries in
theorem inEnd (negated : Bool) (operand : Expr) :
    Alike free held false none (inEnd i negated operand) (Parse.inEnd i' negated operand) := by
  refine .step (expect_step rfl) fun _ => .bind parens.weaken fun inside => ?_
  cases inside with
  | inl query => exact .pure _
  | inr values => exact .pure _

theorem likeEnd (negated : Bool) (operand : Expr) :
    Alike free held false none (likeEnd i negated operand) (Parse.likeEnd i' negated operand) :=
  .step (expect_step rfl) fun _ => .bind (row entries parens).weaken fun _ =>
    .bind (after? rfl (row entries parens).weaken).weaken fun _ => .pure _

private theorem negatedEnd (operand : Expr) :
    Alike free held false none (negatedEnd i operand) (Parse.negatedEnd i' operand) := by
  refine .kind fun k => ?_
  split
  · exact (betweenEnd entries parens true operand).weaken
  · exact (inEnd parens true operand).weaken
  · exact (likeEnd entries parens true operand).weaken
  · exact .unexpected _

private theorem predicateEnd (operand : Expr) :
    Alike free held false none (predicateEnd i operand) (Parse.predicateEnd i' operand) := by
  refine .step isNull?_step fun null => ?_
  cases null with
  | some negated => exact .pure _
  | none =>
      refine .kind fun k => ?_
      split
      · exact .step advance_step fun _ => (negatedEnd entries parens operand).weaken
      · exact (betweenEnd entries parens false operand).weaken
      · exact (inEnd parens false operand).weaken
      · exact (likeEnd entries parens false operand).weaken
      · exact .pure _

theorem predicateRest (left : Expr) :
    Alike free held false none
      (take? BinaryOp.comparison? >>= fun op =>
        match op with
        | some op => Parse.comparisonEnd i left op
        | none => Parse.predicateEnd i left)
      (take? BinaryOp.comparison? >>= fun op =>
        match op with
        | some op => Parse.comparisonEnd i' left op
        | none => Parse.predicateEnd i' left) := by
  refine .step (take?_step comparison?_operators.live) fun comparison => ?_
  cases comparison with
  | some op => exact comparisonEnd entries parens left op
  | none => exact predicateEnd entries parens left

theorem predicate : Alike free held false none (predicate i) (Parse.predicate i') := by
  refine .step (eat_step rfl) fun exists_ => ?_
  cases exists_ with
  | true => exact .map _ (query entries)
  | false =>
      refine .kind fun k => ?_
      split
      · exact .bind (row entries parens).weaken fun left =>
          (predicateRest entries parens left).weaken
      · exact .unexpected _

omit entries parens in
theorem truthTestRest (operand : Expr) :
    Alike free held false none
      (do
        if ← eat (.keyword .IS) then
          let negated ← eat (.keyword .NOT)
          match ← take? truthValue? with
          | some value => Pure.pure (Expr.is value negated operand)
          | none => Parse.unexpected (afterIs negated)
        else Pure.pure operand)
      (do
        if ← eat (.keyword .IS) then
          let negated ← eat (.keyword .NOT)
          match ← take? truthValue? with
          | some value => Pure.pure (Expr.is value negated operand)
          | none => Parse.unexpected (afterIs negated)
        else Pure.pure operand) := by
  refine .step (eat_step rfl) fun is => ?_
  cases is with
  | false => exact .pure _
  | true =>
      refine .step (eat_step rfl) fun negated => .step (take?_step truthValue?_live) fun value => ?_
      cases value with
      | none => exact .unexpected _
      | some value => exact .pure _

theorem truthTest : Alike free held false none (truthTest i) (Parse.truthTest i') :=
  .bind (predicate entries parens) truthTestRest

theorem negation : Alike free held false none (negation i) (Parse.negation i') := by
  refine .step (eat_step rfl) fun not => ?_
  cases not with
  | true => exact .map _ (.held (entries .negated))
  | false => exact truthTest entries parens

theorem condition : Alike free held false none (condition i) (Parse.condition i') :=
  .chain or?_operators.live (.chain and?_operators.live (negation entries parens))

omit entries parens in
theorem setQuantifier : Alike free held false none setQuantifier Parse.setQuantifier :=
  .step (take?_step setQuantifier?_operators.live) fun _ => .pure _

theorem orderItem : Alike free held false none (orderItem i) (Parse.orderItem i') :=
  .bind (row entries parens) fun _ => .step (take?_step direction?_operators.live) fun _ => .pure _

theorem projection : Alike free held false none (projection i) (Parse.projection i') :=
  .bind (row entries parens) fun _ => .bind optionalAlias fun _ => .pure _

omit parens in
theorem tables : Alike free held false none (tables i) (Parse.tables i') := by
  refine .step (eat_step rfl) fun takes => ?_
  cases takes with
  | false => exact .pure []
  | true =>
      exact .bind (.held (entries .table)) fun _ =>
        .bind (many (after? rfl (.held (entries .table)))).weaken fun _ => .pure _

theorem grouping? : Alike free held false none (grouping? i) (Parse.grouping? i') := by
  refine .step (eat_step rfl) fun takes => ?_
  cases takes with
  | false => exact .pure none
  | true =>
      exact .step (expect_step rfl) fun _ => .bind setQuantifier.weaken fun _ =>
        .bind (commaList (row entries parens)).weaken fun _ => .pure _

theorem selectBlock : Alike free held false none (selectBlock i) (Parse.selectBlock i') :=
  .step (expect_step rfl) fun _ => .bind setQuantifier.weaken fun _ =>
    .bind (commaList (projection entries parens)).weaken fun _ =>
    .bind (tables entries).weaken fun _ =>
    .bind (after? rfl (.held (entries .condition))).weaken fun _ =>
    .bind (grouping? entries parens).weaken fun _ =>
    .bind (after? rfl (.held (entries .condition))).weaken fun _ => .pure _

theorem bodyPrimary : Alike free held false none (bodyPrimary i) (Parse.bodyPrimary i') := by
  refine .kind fun k => ?_
  split
  · exact .map _ (selectBlock entries parens).weaken
  · exact (enclosed (.held (entries .body))).weaken
  · exact .unexpected _

omit entries parens in
theorem setTail? {operator : Kind → Option SetOp}
    (live : ∀ k op, operator k = some op → k.isTerminal = false) {p p' : Parser Body}
    (h : Alike free held false none p p') :
    Alike free held false none (setTail? operator p) (Parse.setTail? operator p') := by
  refine .step (take?_step live) fun op => ?_
  cases op with
  | none => exact .pure none
  | some op => exact .bind setQuantifier.weaken fun _ => .bind h.weaken fun _ => .pure _

omit entries parens in
theorem setChain {operator : Kind → Option SetOp}
    (live : ∀ k op, operator k = some op → k.isTerminal = false) {p p' : Parser Body}
    (h : Alike free held false none p p') :
    Alike free held false none (setChain operator p) (Parse.setChain operator p') :=
  .bind h fun _ => .bind (many (setTail? live h)) fun _ => .pure _

theorem body : Alike free held false none (body i) (Parse.body i') :=
  .setChain unionOrExcept?_operators.live (.setChain intersect?_operators.live (bodyPrimary entries parens))

omit parens in
theorem namedQuery : Alike free held false none (namedQuery i) (Parse.namedQuery i') := by
  refine .bind identifier fun _ => .bind optionalColumns fun columns =>
    .step (eat_step rfl) fun as => ?_
  cases as with
  | true => exact .bind (query entries) fun _ => .pure _
  | false =>
      simp only [Bool.false_eq_true, if_false]
      split
      · exact .unexpected _
      · exact .unexpected _

omit parens in
theorem withClause? : Alike free held false none (withClause? i) (Parse.withClause? i') := by
  refine .step (eat_step rfl) fun takes => ?_
  cases takes with
  | false => exact .pure none
  | true =>
      exact .step (eat_step rfl) fun _ => .bind (commaList (namedQuery entries)).weaken fun _ =>
        .pure _

theorem orderBy : Alike free held false none (orderBy i) (Parse.orderBy i') := by
  refine .step (eat_step rfl) fun takes => ?_
  cases takes with
  | false => exact .pure []
  | true =>
      exact .step (expect_step rfl) fun _ => (commaList (orderItem entries parens)).weaken

theorem wholeQuery : Alike free held false none (Parse.query i) (Parse.query i') :=
  .bind (withClause? entries) fun _ => .bind (body entries parens) fun _ =>
    .bind (orderBy entries parens) fun _ => .pure _

omit entries parens in
theorem joinSide? : Alike free held false none joinSide? Parse.joinSide? := by
  refine .kind fun k => ?_
  split
  · exact .pure _
  · exact .step advance_step fun _ => .pure _
  · exact .step advance_step fun _ => .step (eat_step rfl) fun _ => .pure _
  · exact .step advance_step fun _ => .step (eat_step rfl) fun _ => .pure _
  · exact .step advance_step fun _ => .step (eat_step rfl) fun _ => .pure _
  · exact .pure none

omit entries parens in
theorem joinKind? : Alike free held false none joinKind? Parse.joinKind? := by
  refine .step (eat_step rfl) fun cross => ?_
  cases cross with
  | true => exact .step (expect_step rfl) fun _ => .pure _
  | false =>
      refine .step (eat_step rfl) fun natural => .bind joinSide?.weaken fun side => ?_
      cases side with
      | none => cases natural <;> first | exact .pure none | exact .unexpected _
      | some side =>
          refine .step (eat_step rfl) fun join => ?_
          cases join with
          | true => exact .pure _
          | false => exact .unexpected _

omit parens in
theorem joinCondition (kind : SyntaxTree.JoinKind) :
    Alike free held false none (joinCondition i kind) (Parse.joinCondition i' kind) := by
  unfold Parse.joinCondition
  split
  · exact .step (expect_step rfl) fun _ => .map _ (.held (entries .condition))
  · refine .kind fun k => ?_
    split
    · exact .fail (by simp)
    · exact .pure none

omit entries parens
variable (tables : Alike free held false none (parenthesized (i .query) (i .table))
  (parenthesized (i' .query) (i' .table)))
include tables

omit tables in
/-- What follows the parenthesis that a table reference starts with. -/
theorem tableInParensRest (inside : SyntaxTree.Statement ⊕ SyntaxTree.TableRef) :
    Alike free held false none
      (match inside with
        | .inl query => do
            let aliasName ← Parse.requiredAlias
            let columns ← Parse.optionalColumns
            Pure.pure (SyntaxTree.TableRef.derived query aliasName columns)
        | .inr table => Pure.pure table)
      (match inside with
        | .inl query => do
            let aliasName ← Parse.requiredAlias
            let columns ← Parse.optionalColumns
            Pure.pure (SyntaxTree.TableRef.derived query aliasName columns)
        | .inr table => Pure.pure table) := by
  cases inside with
  | inl query => exact .bind requiredAlias fun _ => .bind optionalColumns fun _ => .pure _
  | inr table => exact .pure table

private theorem tableInParens :
    Alike free held false none (tableInParens i) (Parse.tableInParens i') :=
  .bind tables tableInParensRest

theorem tablePrimary : Alike free held false none (tablePrimary i) (Parse.tablePrimary i') := by
  refine .kind fun k => ?_
  split
  · exact .bind (separated rfl identifier).weaken fun _ => .bind optionalAlias.weaken fun _ =>
      .pure _
  · exact (tableInParens tables).weaken
  · exact .unexpected _

include entries

theorem join? : Alike free held false none (join? i) (Parse.join? i') := by
  refine .bind joinKind? fun kind => ?_
  cases kind with
  | none => exact .pure none
  | some kind =>
      exact .bind (tablePrimary tables) fun _ => .bind (joinCondition entries kind) fun _ => .pure _

theorem table : Alike free held false none (table i) (Parse.table i') :=
  .bind (tablePrimary tables) fun _ => .bind (many (join? entries tables)) fun _ => .pure _

include parens

/-- The rules of all constructs are alike over families that are. -/
theorem rule (e : Entry) : Alike free held false none (rule i e) (Parse.rule i' e) := by
  cases e with
  | query => exact wholeQuery entries parens
  | body => exact body entries parens
  | condition => exact condition entries parens
  | negated => exact negation entries parens
  | signed => exact primary entries parens (row entries parens).weaken
  | table => exact table entries tables

end Alike

end SelectSyntax.Parse
