import SelectSyntax.Proofs.Consumption
import SelectSyntax.Proofs.Resuming

/-!
Calls of rules come to an end. Between two calls of one rank a token is taken, so that with one unit of fuel for
each rank and each token left no call runs out, and the outcome is that of the parsers.
-/

set_option autoImplicit false
set_option relaxedAutoImplicit false

namespace SelectSyntax.Parse

open SyntaxTree (BinaryOp Body Expr SetOp SetQuantifier Statement)
open Token (Kind)

namespace Metered

/-- A metered parser does not run out, and does what a parser does, where at most so many tokens are left, or
fewer than that once a token has been taken. -/
def Evaluates {α : Type} (taken : Bool) (n : Nat) (m : Metered α) (p : Parser α) : Prop :=
  ∀ s : State, s.Complete → s.remaining ≤ n → (taken = true → s.remaining < n) → m s = some (p s)

section
variable {α β : Type} {taken : Bool} {n : Nat} {m : Metered α} {p : Parser α} {f : α → Metered β}
  {g : α → Parser β}

theorem bind_eval {s : State} (first : m s = some (p s))
    (rest : ∀ a t, p s = .ok a t → f a t = some (g a t)) : (m >>= f) s = some ((p >>= g) s) := by
  cases run : p s with
  | error e t => simp [Bind.bind, EStateM.bind, first, run]
  | ok a t => simp [Bind.bind, EStateM.bind, first, run, rest a t run]

namespace Evaluates

theorem monotone {taken' : Bool} (h : Evaluates taken n m p) (more : taken = true → taken' = true) :
    Evaluates taken' n m p :=
  fun s complete le lt => h s complete le fun took => lt (more took)

theorem weaken (h : Evaluates false n m p) : Evaluates taken n m p :=
  h.monotone (by simp)

theorem past (h : Evaluates true n m p) : Evaluates (taken || true) n m p :=
  h.monotone (by simp)

theorem lift (p : Parser α) : Evaluates taken n (lift p) p :=
  fun _ _ _ _ => rfl

theorem pure (a : α) : Evaluates taken n (pure a) (Pure.pure a) :=
  fun _ _ _ _ => rfl

theorem bind (first : Evaluates taken n m p) (forward : Forward p)
    (rest : ∀ a, Evaluates taken n (f a) (g a)) : Evaluates taken n (m >>= f) (p >>= g) := by
  intro s complete le lt
  refine bind_eval (first s complete le lt) fun a t run => ?_
  have within := forward.of_ok complete run
  have fewer := within.remaining_le
  exact rest a t (within.complete complete) (by omega) fun took => Nat.lt_of_le_of_lt fewer (lt took)

theorem step {takes : α → Bool} (plain : Step p takes)
    (rest : ∀ a, Evaluates (taken || takes a) n (f a) (g a)) :
    Evaluates taken n (Metered.lift p >>= f) (p >>= g) := by
  intro s complete le lt
  refine bind_eval rfl fun a t run => ?_
  have step := plain.stays s complete
  rw [run] at step
  have fewer := step.1.remaining_le
  refine rest a t (step.1.complete complete) (by omega) fun took => ?_
  rcases Bool.or_eq_true _ _ ▸ took with took | took
  · exact Nat.lt_of_le_of_lt fewer (lt took)
  · exact Nat.lt_of_lt_of_le (step.2 took) le

theorem kind {f : Kind → Metered β} {g : Kind → Parser β} (rest : ∀ k, Evaluates taken n (f k) (g k)) :
    Evaluates taken n (Metered.lift Parse.kind >>= f) (Parse.kind >>= g) :=
  fun s complete le lt => rest s.kind s complete le lt

theorem map (h : α → β) (first : Evaluates taken n m p) : Evaluates taken n (h <$> m) (h <$> p) := by
  intro s complete le lt
  have same : h <$> p = p >>= fun a => Pure.pure (h a) := map_eq_pure_bind h p
  rw [same]
  exact bind_eval (first s complete le lt) fun _ _ _ => rfl

private theorem manyWithin {item? : Metered (Option α)} {q : Parser (Option α)}
    (h : Evaluates taken n item? q) (item : Takes q Option.isSome) (turns : Nat) {s : State}
    (complete : s.Complete) (le : s.remaining ≤ n) (lt : taken = true → s.remaining < n)
    (less : s.remaining < turns) : manyWithin item? turns s = some (Parse.many q s) := by
  induction turns generalizing s with
  | zero => omega
  | succ turns ih =>
      rw [many_eq item complete]
      refine bind_eval (h s complete le lt) fun o t run => ?_
      cases o with
      | none => rfl
      | some a =>
          have fewer := item.takes s _ t complete run rfl
          have ahead := (item.forward.of_ok complete run).complete complete
          exact bind_eval (ih ahead (by omega) (fun took => Nat.lt_trans fewer (lt took)) (by omega))
            fun _ _ _ => rfl

theorem many {item? : Metered (Option α)} {q : Parser (Option α)} (h : Evaluates taken n item? q)
    (item : Takes q Option.isSome) : Evaluates taken n (many item?) (Parse.many q) :=
  fun _ complete le lt => manyWithin h item _ complete le lt (Nat.lt_succ_self _)

theorem after? {k : Kind} (live : k.isTerminal = false) (h : Evaluates true n m p) (forward : Forward p) :
    Evaluates taken n (after? k m) (Parse.after? k p) := by
  refine .step (eat_step live) fun eaten => ?_
  cases eaten with
  | false => exact .pure none
  | true => exact .bind h.past forward fun _ => .pure _

theorem separated {k : Kind} (live : k.isTerminal = false) (h : Evaluates taken n m p) (forward : Forward p) :
    Evaluates taken n (separated k m) (Parse.separated k p) :=
  .bind h forward fun _ =>
    .bind (many (after? live (h.monotone fun _ => rfl) forward) (after?_takes forward live))
      (forward_of_alike (.many (.after? live (.free forward)))) fun _ => .pure _

theorem commaList (h : Evaluates taken n m p) (forward : Forward p) :
    Evaluates taken n (commaList m) (Parse.commaList p) :=
  separated rfl h forward

theorem tail? {operator : Kind → Option BinaryOp}
    (live : ∀ k op, operator k = some op → k.isTerminal = false) {m : Metered Expr} {p : Parser Expr}
    (h : Evaluates taken n m p) (forward : Forward p) :
    Evaluates taken n (tail? operator m) (Parse.tail? operator p) := by
  refine .step (take?_step live) fun op => ?_
  cases op with
  | none => exact .pure none
  | some op => exact .bind (h.monotone (by simp)) forward fun _ => .pure _

theorem chain {operator : Kind → Option BinaryOp}
    (live : ∀ k op, operator k = some op → k.isTerminal = false) {m : Metered Expr} {p : Parser Expr}
    (h : Evaluates taken n m p) (forward : Forward p) :
    Evaluates taken n (chain operator m) (Parse.chain operator p) :=
  .bind h forward fun _ => .bind (many (tail? live h forward) (tail?_takes forward live))
    (forward_of_alike (.many (.tail? live (.free forward)))) fun _ => .pure _

theorem setTail? {operator : Kind → Option SetOp}
    (live : ∀ k op, operator k = some op → k.isTerminal = false) {quantifier : Metered SetQuantifier}
    (word : Evaluates taken n quantifier setQuantifier) {m : Metered Body} {p : Parser Body}
    (h : Evaluates taken n m p) (forward : Forward p) :
    Evaluates taken n (setTail? operator quantifier m) (Parse.setTail? operator p) := by
  refine .step (take?_step live) fun op => ?_
  cases op with
  | none => exact .pure none
  | some op =>
      exact .bind (word.monotone (by simp)) (forward_of_alike .setQuantifier) fun _ =>
        .bind (h.monotone (by simp)) forward fun _ => .pure _

theorem setChain {operator : Kind → Option SetOp}
    (live : ∀ k op, operator k = some op → k.isTerminal = false) {quantifier : Metered SetQuantifier}
    (word : Evaluates taken n quantifier setQuantifier) {m : Metered Body} {p : Parser Body}
    (h : Evaluates taken n m p) (forward : Forward p) :
    Evaluates taken n (setChain operator quantifier m) (Parse.setChain operator p) :=
  .bind h forward fun _ => .bind (many (setTail? live word h forward) (setTail?_takes forward live))
    (forward_of_alike (.many (.setTail? live (.free forward)))) fun _ => .pure _

theorem closed (h : Evaluates taken n m p) (forward : Forward p) :
    Evaluates taken n (closed m) (Parse.closed p) :=
  .bind h forward fun _ => .step (expect_step rfl) fun _ => .pure _

theorem enclosed (h : Evaluates true n m p) (forward : Forward p) :
    Evaluates taken n (enclosed m) (Parse.enclosed p) :=
  .step (expect_step rfl) fun _ => closed h.past forward

/-- Neither of two readings runs out, so that the second one is tried exactly after a failure of the first. -/
theorem prefer {m' : Metered α} {p' : Parser α} (first : Evaluates taken n m p)
    (second : Evaluates taken n m' p') : Evaluates taken n (prefer m m') (Parse.prefer p p') := by
  intro s complete le lt
  simp only [Metered.prefer, Parse.prefer, first s complete le lt]
  cases p s with
  | ok a t => rfl
  | error e u =>
      have other := second (u.restore s.checkpoint) complete le lt
      simp only [other]
      cases p' (u.restore s.checkpoint) <;> rfl

theorem parenthesized {query : Metered Statement} {q : Parser Statement} (first : Evaluates true n query q)
    (readsFirst : Forward q) (second : Evaluates true n m p) (readsSecond : Forward p) :
    Evaluates taken n (parenthesized query m) (Parse.parenthesized q p) := by
  refine .step (expect_step rfl) fun _ => .kind fun k => ?_
  split
  · exact .prefer (.map _ (closed first.past readsFirst)) (.map _ (closed second.past readsSecond))
  · exact .map _ (closed second.past readsSecond)

theorem nested {limit : Option Nat} (h : Evaluates taken n m p) :
    Evaluates taken n (nested limit m) (Parse.nested limit p) := by
  intro s complete le lt
  have inside : m s.enter = some (p s.enter) := h s.enter complete le lt
  rw [Metered.nested, Parse.nested, inside]
  cases limit.filter fun m => m ≤ s.depth <;> rfl

private theorem pathWithin (turns : Nat) {s : State} (complete : s.Complete) (less : s.remaining < turns) :
    pathWithin turns s = some (columnPath s) := by
  induction turns generalizing s with
  | zero => omega
  | succ turns ih =>
      rw [columnPath_eq complete]
      refine bind_eval rfl fun star t run => ?_
      have within := (eat_step rfl).forward.of_ok complete run
      have complete := within.complete complete
      cases star with
      | true => rfl
      | false =>
          refine bind_eval rfl fun name u run => ?_
          have within' := identifier?_step.forward.of_ok complete run
          have complete := within'.complete complete
          cases name with
          | none => rfl
          | some name =>
              refine bind_eval rfl fun dot v run => ?_
              cases dot with
              | false => rfl
              | true =>
                  have fewer := (eat_takes rfl).takes u _ v complete run rfl
                  have later := (eat_takes rfl).forward.of_ok complete run
                  have le := (within'.trans within).remaining_le
                  exact bind_eval (ih (later.complete complete) (by omega)) fun _ _ _ => rfl

theorem path : Evaluates taken n path columnPath :=
  fun _ complete _ _ => pathWithin _ complete (Nat.lt_succ_self _)

theorem identifierList : Evaluates taken n identifierList Parse.identifierList := by
  refine .step (expect_step rfl) fun _ => .bind (commaList (.lift _) ?_) ?_ fun names =>
    .step (eat_step rfl) fun closes => ?_
  · exact Consumes.identifier.forward
  · exact forward_of_alike (.commaList .identifier)
  · cases closes with
    | true => exact .pure _
    | false => exact .lift _

end Evaluates

end

/-- How a rule calls others does what their parsers do: those of a lower rank anywhere, and all of them once a
token has been taken. -/
structure Supports (call : Calls) (i : Inner) (n : Nat) (caller : Rule) : Prop where
  consumes : ∀ e, Consumes (i e)
  lower : ∀ r : Rule, r.rank < caller.rank → Evaluates false n (call r) (r.parser i)
  later : ∀ r : Rule, Evaluates true n (call r) (r.parser i)

namespace Supports

variable {call : Calls} {i : Inner} {n : Nat} {caller : Rule}

theorem inside (h : Supports call i n caller) (e : Entry) : Forward (i e) :=
  (h.consumes e).forward

theorem forward (h : Supports call i n caller) (r : Rule) : Forward (r.parser i) :=
  Rule.parser_forward h.consumes r

theorem conditions (h : Supports call i n .conditions) : Evaluates false n (conditions call) (Parse.conditions i) :=
  .commaList (h.lower (.construct .condition) (by decide)) (h.inside .condition)

theorem arguments (h : Supports call i n .arguments) : Evaluates false n (arguments call) (Parse.arguments i) := by
  refine .step (expect_step rfl) fun _ => .step (eat_step rfl) fun closes => ?_
  cases closes with
  | true => exact .pure _
  | false =>
      refine .bind (h.later .conditions) (h.forward .conditions) fun _ => .step (eat_step rfl) fun closes => ?_
      cases closes with
      | true => exact .pure _
      | false => exact .lift _

theorem columnOrCall (h : Supports call i n .columnOrCall) :
    Evaluates false n (columnOrCall call) (Parse.columnOrCall i) := by
  refine .bind .path Consumes.columnPath.forward fun names => .kind fun k => ?_
  split
  · exact .bind (h.lower .arguments (by decide)) (h.forward .arguments) fun _ => .pure _
  · exact .pure _

theorem branch? (h : Supports call i n caller) : Evaluates false n (branch? call) (Parse.branch? i) := by
  refine .step (eat_step rfl) fun word => ?_
  cases word with
  | false => exact .pure none
  | true =>
      exact .bind (h.later (.construct .condition)) (h.inside .condition) fun _ =>
        .step (expect_step rfl) fun _ => .bind (h.later (.construct .condition)) (h.inside .condition) fun _ =>
        .pure _

theorem caseEnd (h : Supports call i n caller) (operand : Option Expr) (branches : List (Expr × Expr)) :
    Evaluates false n (caseEnd call operand branches) (Parse.caseEnd i operand branches) := by
  have otherwise := h.later (.construct .condition)
  refine .bind (.after? rfl otherwise (h.inside .condition))
    (after?_takes (h.inside .condition) rfl).forward fun otherwise => .step (eat_step rfl) fun word => ?_
  cases word with
  | true => exact .pure _
  | false =>
      simp only [Bool.false_eq_true, if_false]
      split
      · exact .lift _
      · exact .lift _

theorem caseExpr (h : Supports call i n .caseExpr) :
    Evaluates false n (caseExpr call) (Parse.caseExpr i (Parse.row i)) := by
  have rest : ∀ operand : Option Expr, Evaluates true n
      (many (Metered.branch? call) >>= fun branches =>
        if branches.isEmpty then Metered.lift (unexpected [.keyword .WHEN])
        else Metered.caseEnd call operand branches)
      (Parse.many (Parse.branch? i) >>= fun branches =>
        if branches.isEmpty then unexpected [.keyword .WHEN]
        else Parse.caseEnd i operand branches) := by
    refine fun operand => .bind (.many h.branch?.weaken (branch?_takes h.inside))
      (forward_of_alike (.many (.free (branch?_takes h.inside).forward))) fun branches => ?_
    split
    · exact .lift _
    · exact (h.caseEnd operand branches).weaken
  refine .step (expect_step rfl) fun _ => .kind fun k => ?_
  dsimp only
  split
  · exact .bind (.pure none) (.pure none) rest
  · exact .bind (.map _ (h.later .row)) ((h.forward .row).map _) rest

theorem primary (h : Supports call i n .primary) :
    Evaluates false n (primary call) (Parse.primary i (Parse.row i)) := by
  intro s complete le lt
  have past : ∀ {m : Metered Expr} {p : Parser Expr}, Evaluates true n m p → s.kind.isTerminal = false →
      (Metered.lift advance >>= fun _ => m) s = some ((advance >>= fun _ => p) s) := by
    intro m p evaluates live
    have less := complete.remaining_advance live
    refine bind_eval rfl fun _ t run => ?_
    cases run
    exact evaluates s.advance (s.advance_within.complete complete) (by omega) fun _ => by omega
  refine bind_eval rfl fun token t run => ?_
  cases run
  generalize kind : s.token.kind = found
  have live : found.isTerminal = false → s.kind.isTerminal = false := fun h => by rw [State.kind, kind, h]
  cases found with
  | number | string => exact past (.pure _) (live rfl)
  | question => exact (Evaluates.map _ (.lift parameter)) s complete le lt
  | plus | minus => exact past (.map _ (h.later (.construct .signed))) (live rfl)
  | identifier | star => exact h.lower .columnOrCall (by decide) s complete le lt
  | leftParen => exact (Evaluates.map _ (h.lower .values (by decide))) s complete le lt
  | keyword w =>
      cases w with
      | TRUE | FALSE | NULL => exact past (.pure _) (live rfl)
      | CASE => exact h.lower .caseExpr (by decide) s complete le lt
      | AVG | COUNT | GROUPING | MAX | MIN | NULLIF | RANK | SUM =>
          exact past (.map _ (h.later .arguments)) (live rfl)
      | _ => rfl
  | _ => rfl

theorem comparisonEnd (h : Supports call i n .predicate) (left : Expr) (op : BinaryOp) :
    Evaluates false n (comparisonEnd call left op) (Parse.comparisonEnd i left op) := by
  refine .step (take?_step quantifier?_operators.live) fun quantifier => ?_
  cases quantifier with
  | none => exact .map _ (h.lower .row (by decide)).weaken
  | some quantifier => exact .map _ (.enclosed (h.later (.construct .query)) (h.inside .query))

theorem betweenEnd (h : Supports call i n caller) (negated : Bool) (operand : Expr) :
    Evaluates false n (betweenEnd call negated operand) (Parse.betweenEnd i negated operand) :=
  .step (expect_step rfl) fun _ => .bind (h.later .row) (h.forward .row) fun _ =>
    .step (expect_step rfl) fun _ => .bind (h.later .row) (h.forward .row) fun _ => .pure _

theorem inEnd (h : Supports call i n caller) (negated : Bool) (operand : Expr) :
    Evaluates false n (inEnd call negated operand) (Parse.inEnd i negated operand) := by
  refine .step (expect_step rfl) fun _ => .bind (h.later .values) (h.forward .values) fun found => ?_
  cases found with
  | inl query => exact .pure _
  | inr values => exact .pure _

theorem likeEnd (h : Supports call i n caller) (negated : Bool) (operand : Expr) :
    Evaluates false n (likeEnd call negated operand) (Parse.likeEnd i negated operand) :=
  .step (expect_step rfl) fun _ => .bind (h.later .row) (h.forward .row) fun _ =>
    .bind (.after? rfl (h.later .row) (h.forward .row)) (after?_takes (h.forward .row) rfl).forward fun _ =>
    .pure _

theorem negatedEnd (h : Supports call i n .predicate) (operand : Expr) :
    Evaluates false n (negatedEnd call operand) (Parse.negatedEnd i operand) := by
  refine .kind fun k => ?_
  cases k with
  | keyword w =>
      cases w with
      | BETWEEN => exact h.lower (.betweenEnd true operand) (Nat.succ_pos _)
      | IN => exact h.lower (.inEnd true operand) (Nat.succ_pos _)
      | LIKE => exact h.lower (.likeEnd true operand) (Nat.succ_pos _)
      | _ => exact .lift _
  | _ => exact .lift _

theorem predicateEnd (h : Supports call i n .predicate) (operand : Expr) :
    Evaluates false n (predicateEnd call operand) (Parse.predicateEnd i operand) := by
  refine .step isNull?_step fun null => ?_
  cases null with
  | some negated => exact .pure _
  | none =>
      refine .kind fun k => ?_
      cases k with
      | keyword w =>
          cases w with
          | NOT => exact .step advance_step fun _ => h.negatedEnd operand
          | BETWEEN => exact h.lower (.betweenEnd false operand) (Nat.succ_pos _)
          | IN => exact h.lower (.inEnd false operand) (Nat.succ_pos _)
          | LIKE => exact h.lower (.likeEnd false operand) (Nat.succ_pos _)
          | _ => exact .pure _
      | _ => exact .pure _

theorem predicate (h : Supports call i n .predicate) : Evaluates false n (predicate call) (Parse.predicate i) := by
  refine .step (eat_step rfl) fun word => ?_
  cases word with
  | true => exact .map _ (.enclosed (h.later (.construct .query)) (h.inside .query))
  | false =>
      refine .kind fun k => ?_
      split
      · refine .bind (h.lower .row (by decide)) (h.forward .row) fun left =>
          .step (take?_step comparison?_operators.live) fun op => ?_
        cases op with
        | some op => exact (h.comparisonEnd left op).weaken
        | none => exact h.predicateEnd left
      · exact .lift _

theorem truthTest (h : Supports call i n .truthTest) : Evaluates false n (truthTest call) (Parse.truthTest i) := by
  refine .bind (h.lower .predicate (by decide)) (h.forward .predicate) fun operand =>
    .step (eat_step rfl) fun is => ?_
  cases is with
  | false => exact .pure _
  | true =>
      refine .step (eat_step rfl) fun negated => .step (take?_step truthValue?_live) fun value => ?_
      cases value with
      | none => exact .lift _
      | some value => exact .pure _

theorem negation (h : Supports call i n .negation) : Evaluates false n (negation call) (Parse.negation i) := by
  refine .step (eat_step rfl) fun word => ?_
  cases word with
  | true => exact .map _ (h.later (.construct .negated))
  | false => exact h.lower .truthTest (by decide)

theorem optionalColumns (h : Supports call i n caller) (positive : 0 < caller.rank) :
    Evaluates false n (optionalColumns call) Parse.optionalColumns := by
  refine .kind fun k => ?_
  split
  · exact h.lower .identifierList positive
  · exact .pure _

theorem tablePrimary (h : Supports call i n .tablePrimary) :
    Evaluates false n (tablePrimary call) (Parse.tablePrimary i) := by
  refine .kind fun k => ?_
  cases k with
  | identifier =>
      exact .bind (.separated rfl (.lift _) Consumes.identifier.forward)
        (Consumes.identifier.separated rfl).forward fun _ =>
        .bind (h.lower .optionalAlias (by decide)) (h.forward .optionalAlias) fun _ => .pure _
  | leftParen =>
      refine .bind (h.lower .tableInParens (by decide)) (h.forward .tableInParens) fun found => ?_
      cases found with
      | inr table => exact .pure _
      | inl query =>
          exact .bind (h.lower .requiredAlias (by decide)) (h.forward .requiredAlias) fun _ =>
            .bind (h.optionalColumns (by decide)) (forward_of_alike .optionalColumns) fun _ => .pure _
  | _ => exact .lift _

theorem joinCondition (h : Supports call i n caller) (kind : SyntaxTree.JoinKind) :
    Evaluates false n (joinCondition call kind) (Parse.joinCondition i kind) := by
  unfold Metered.joinCondition Parse.joinCondition
  split
  · exact .step (expect_step rfl) fun _ => .map _ (h.later (.construct .condition))
  · refine .kind fun k => ?_
    split
    · exact .lift _
    · exact .pure _

theorem join? (h : Supports call i n .table) : Evaluates false n (join? call) (Parse.join? i) := by
  refine .bind (h.lower .joinKind? (by decide)) (h.forward .joinKind?) fun kind => ?_
  cases kind with
  | none => exact .pure none
  | some kind =>
      exact .bind (h.lower .tablePrimary (by decide)) (h.forward .tablePrimary) fun _ =>
        .bind (h.joinCondition kind) (forward_of_alike (.joinCondition h.inside kind)) fun _ => .pure _

theorem table (h : Supports call i n .table) : Evaluates false n (table call) (Parse.table i) :=
  .bind (h.lower .tablePrimary (by decide)) (h.forward .tablePrimary) fun _ =>
    .bind (.many h.join? (join?_takes h.inside))
      (forward_of_alike (.many (.free (join?_takes h.inside).forward))) fun _ => .pure _

theorem orderItem (h : Supports call i n caller) : Evaluates true n (orderItem call) (Parse.orderItem i) :=
  .bind (h.later .row) (h.forward .row) fun _ => .step (take?_step direction?_operators.live) fun _ => .pure _

theorem projection (h : Supports call i n .projection) : Evaluates false n (projection call) (Parse.projection i) :=
  .bind (h.lower .row (by decide)) (h.forward .row) fun _ =>
    .bind (h.lower .optionalAlias (by decide)) (h.forward .optionalAlias) fun _ => .pure _

theorem tables (h : Supports call i n caller) : Evaluates false n (tables call) (Parse.tables i) := by
  refine .step (eat_step rfl) fun word => ?_
  cases word with
  | false => exact .pure []
  | true => exact .commaList (h.later (.construct .table)) (h.inside .table)

theorem grouping? (h : Supports call i n caller) : Evaluates false n (grouping? call) (Parse.grouping? i) := by
  refine .step (eat_step rfl) fun word => ?_
  cases word with
  | false => exact .pure none
  | true =>
      exact .step (expect_step rfl) fun _ => .bind (h.later .setQuantifier) (h.forward .setQuantifier) fun _ =>
        .bind (.commaList (h.later .row) (h.forward .row)) (Consumes.row h.inside).commaList.forward fun _ =>
        .pure _

theorem selectBlock (h : Supports call i n .selectBlock) :
    Evaluates false n (selectBlock call) (Parse.selectBlock i) := by
  have condition : Evaluates true n (call (.construct .condition)) (i .condition) :=
    h.later (.construct .condition)
  have filter : ∀ k : Kind, k.isTerminal = false → Forward (Parse.after? k (i .condition)) := fun _ live =>
    (after?_takes (h.inside .condition) live).forward
  have values : Forward (Parse.parenthesized (i .query) (Parse.conditions i)) := values_forward h.inside
  exact .step (expect_step rfl) fun _ => .bind (h.later .setQuantifier) (h.forward .setQuantifier) fun _ =>
    .bind (.commaList (h.later .projection) (h.forward .projection))
      (Consumes.projection h.inside).commaList.forward fun _ =>
    .bind h.tables.weaken (forward_of_alike (.tables h.inside)) fun _ =>
    .bind (.after? rfl condition (h.inside .condition)) (filter _ rfl) fun _ =>
    .bind h.grouping?.weaken (forward_of_alike (.grouping? h.inside (.free values))) fun _ =>
    .bind (.after? rfl condition (h.inside .condition)) (filter _ rfl) fun _ => .pure _

theorem bodyPrimary (h : Supports call i n .bodyPrimary) :
    Evaluates false n (bodyPrimary call) (Parse.bodyPrimary i) := by
  refine .kind fun k => ?_
  cases k with
  | leftParen => exact .enclosed (h.later (.construct .body)) (h.inside .body)
  | keyword w =>
      cases w with
      | SELECT => exact .map _ (h.lower .selectBlock (by decide))
      | _ => exact .lift _
  | _ => exact .lift _

theorem namedQuery (h : Supports call i n .namedQuery) : Evaluates false n (namedQuery call) (Parse.namedQuery i) := by
  refine .bind (.lift _) Consumes.identifier.forward fun _ =>
    .bind (h.optionalColumns (by decide)) (forward_of_alike .optionalColumns) fun columns =>
    .step (eat_step rfl) fun word => ?_
  cases word with
  | true =>
      exact .bind (.enclosed (h.later (.construct .query)) (h.inside .query))
        (Consumes.enclosed (h.inside .query)).forward fun _ => .pure _
  | false =>
      simp only [Bool.false_eq_true, if_false]
      split
      · exact .lift _
      · exact .lift _

theorem withClause? (h : Supports call i n caller) :
    Evaluates false n (withClause? call) (Parse.withClause? i) := by
  refine .step (eat_step rfl) fun word => ?_
  cases word with
  | false => exact .pure none
  | true =>
      exact .step (eat_step rfl) fun _ => .bind (.commaList (h.later .namedQuery) (h.forward .namedQuery))
        (Consumes.namedQuery h.inside).commaList.forward fun _ => .pure _

theorem orderBy (h : Supports call i n caller) : Evaluates false n (orderBy call) (Parse.orderBy i) := by
  refine .step (eat_step rfl) fun word => ?_
  cases word with
  | false => exact .pure []
  | true => exact .step (expect_step rfl) fun _ => .commaList h.orderItem (orderItem_forward h.inside)

theorem query (h : Supports call i n .query) : Evaluates false n (query call) (Parse.query i) :=
  .bind (h.lower .withClause? (by decide)) (h.forward .withClause?) fun _ =>
    .bind (h.lower .body (by decide)) (h.forward .body) fun _ =>
    .bind (h.lower .orderBy (by decide)) (h.forward .orderBy) fun _ => .pure _

theorem whole {requireEnd : Bool} (h : Supports call i n (.whole requireEnd)) :
    Evaluates false n (whole call requireEnd) ((Rule.whole requireEnd).parser i) := by
  refine .bind (h.lower (.construct .query) (Nat.lt_succ_self _)) (h.inside .query) fun _ =>
    .step (eat_step rfl) fun _ => .kind fun k => ?_
  split
  · exact .lift _
  · exact .pure _

/-- Every construct is one of the rules, entered one level further in. -/
theorem rule {e : Entry} (h : Supports call i n (.construct e)) :
    Evaluates false n (rule call e) (Parse.rule i e) := by
  cases e with
  | query => exact h.lower .query (by decide)
  | body => exact h.lower .body (by decide)
  | condition => exact h.lower .condition (by decide)
  | negated => exact h.lower .negation (by decide)
  | signed => exact h.lower .primary (by decide)
  | table => exact h.lower .table (by decide)

end Supports

/-- What a rule does itself does not run out if the calls that it makes do not, over constructs that are their rules
one level further in. -/
theorem step_evaluates {limit : Option Nat} {n : Nat} {call : Calls} {i : Inner} {r : Rule} (h : Supports call i n r)
    (entered : ∀ e (s : State), s.Complete → s.remaining ≤ n → i e s = Parse.nested limit (Parse.rule i e) s) :
    Evaluates false n (r.step limit call) (r.parser i) := by
  cases r with
  | construct e =>
      intro s complete le lt
      exact (h.rule.nested s complete le lt).trans (congrArg some (entered e s complete le).symm)
  | whole requireEnd => exact h.whole
  | query => exact h.query
  | withClause? => exact h.withClause?
  | namedQuery => exact h.namedQuery
  | orderBy => exact h.orderBy
  | body =>
      exact .setChain unionOrExcept?_operators.live (h.lower .setQuantifier (by decide))
        (h.lower .intersections (by decide)) (h.forward .intersections)
  | intersections =>
      exact .setChain intersect?_operators.live (h.lower .setQuantifier (by decide)) (h.lower .bodyPrimary (by decide))
        (h.forward .bodyPrimary)
  | bodyPrimary => exact h.bodyPrimary
  | selectBlock => exact h.selectBlock
  | projection => exact h.projection
  | condition => exact .chain or?_operators.live (h.lower .conjunction (by decide)) (h.forward .conjunction)
  | conjunction => exact .chain and?_operators.live (h.lower .negation (by decide)) (h.forward .negation)
  | negation => exact h.negation
  | truthTest => exact h.truthTest
  | predicate => exact h.predicate
  | betweenEnd negated operand => exact h.betweenEnd negated operand
  | inEnd negated operand => exact h.inEnd negated operand
  | likeEnd negated operand => exact h.likeEnd negated operand
  | conditions => exact h.conditions
  | row =>
      -- The operand of a `CASE` is a row again, read after a token.
      intro s complete le lt
      have sum : Evaluates false n (chain BinaryOp.sum? (call .product)) (sum i (row i)) :=
        .chain sum?_operators.live (h.lower .product (by decide)) (h.forward .product)
      exact (sum s complete le lt).trans (congrArg some (row_eq h.inside complete).symm)
  | product => exact .chain product?_operators.live (h.lower .power (by decide)) (h.forward .power)
  | power => exact .chain power?_operators.live (h.lower .primary (by decide)) (h.forward .primary)
  | primary => exact h.primary
  | columnOrCall => exact h.columnOrCall
  | arguments => exact h.arguments
  | caseExpr => exact h.caseExpr
  | values =>
      exact .parenthesized (h.later (.construct .query)) (h.inside .query) (h.later .conditions)
        (h.forward .conditions)
  | table => exact h.table
  | tablePrimary => exact h.tablePrimary
  | tableInParens =>
      exact .parenthesized (h.later (.construct .query)) (h.inside .query) (h.later (.construct .table))
        (h.inside .table)
  | joinKind? | optionalAlias | requiredAlias | setQuantifier => exact .lift _
  | identifierList => exact .identifierList

/-- With 13 units of fuel for each token left, and one more than the rank of the rule, no call runs out. -/
theorem evaluates (limit : Option Nat) {turns fuel n : Nat} {r : Rule} (enough : 13 * n + r.rank < fuel)
    (less : n < turns) : Evaluates false n (r.evaluate limit fuel) (r.parser (constructs limit turns)) := by
  induction fuel generalizing n r with
  | zero => omega
  | succ fuel ih =>
      refine step_evaluates ⟨constructs_consumes limit turns, fun r lower => ih (by omega) less, ?_⟩
        fun e s complete le => constructs_eq limit turns e complete (by omega)
      intro r t complete _ lt
      have fewer := lt rfl
      have bounded := r.rank_le
      exact ih (by omega) (by omega) t complete (Nat.le_refl t.remaining) (by simp)

end Metered

end SelectSyntax.Parse

namespace SelectSyntax.Session

open Parse

/-- From any scanner that has been advanced, under any configuration and inside any number of constructs, a rule
does not run out where calls nest no deeper than 13 times as many as there are tokens from the current one on.
Succeed or fail, it leaves the scanner at one of these tokens and closes the levels that it has opened, and it leaves
the scanner past the first token if it succeeds and is not optional. -/
theorem calls_terminate (text : String) (n : Nat) (config : Config) (parameters depth fuel : Nat) (r : Rule) :
    let s : Session := ⟨Scanner.advance^[n + 1] (Scanner.ofText text), config, parameters, depth⟩
    let p := r.parser s.construct
    let after := (s.run p).2
    (13 * s.scanner.tokenize.length ≤ fuel → r.evaluate config.maxDepth fuel s.state = some (p s.state)) ∧
      after.scanner.tokenize <:+ s.scanner.tokenize ∧ after.depth = depth ∧
      (r.optional = false → ∀ a, (s.run p).1 = .ok a →
        after.scanner.tokenize.length < s.scanner.tokenize.length) := by
  intro s p after
  have primed : s.scanner.isPrimed = true := by
    change (Scanner.advance^[n + 1] _).isPrimed = true
    rw [Function.iterate_succ_apply']
    exact Scanner.isPrimed_advance _
  have before := length_tokenize primed
  have consumes := constructs_consumes config.maxDepth (s.state.remaining + 1)
  have forward : Forward p := Rule.parser_forward consumes r
  obtain ⟨t, within, moved⟩ : ∃ t : State, t.Within s.state ∧ after = s.moveTo t := by
    cases run : p s.state with
    | ok a t => exact ⟨t, forward.of_ok s.complete run, by simp only [after, Session.run, run]⟩
    | error e t => exact ⟨t, (forward.of_error s.complete run).2, by simp only [after, Session.run, run]⟩
  refine ⟨fun enough => ?_, ?_, ?_, fun needed a run => ?_⟩
  · have bounded := r.rank_le
    exact Metered.evaluates (n := s.state.remaining) config.maxDepth (by omega) (Nat.lt_succ_self _) s.state
      s.complete (Nat.le_refl _) (by simp)
  · rw [moved, tokenize_moveTo_eq_drop primed within]
    exact List.drop_suffix _ _
  · rw [moved]
    exact within.depth
  · obtain ⟨u, run⟩ := run_eq_ok.mp run
    have less := (Rule.parser_consumes consumes needed).takes s.state a u s.complete run
    have there : after = s.moveTo u := by simp only [after, Session.run, run]
    obtain ⟨still, state⟩ := state_moveTo primed (forward.of_ok s.complete run)
    rw [there, length_tokenize still, state, before]
    omega

/-- Each parenthesis is read again after no query is found in it, and so is the `IS`, which tests for no null. -/
theorem calls_terminate_condition :
    let s : Session := ⟨Scanner.advance^[1] (Scanner.ofText "((a)) is true"), {}, 0, 0⟩
    let r : Rule := .construct .condition
    let p := r.parser s.construct
    let after := (s.run p).2
    13 * s.scanner.tokenize.length ≤ 104 ∧ r.optional = false ∧ (∃ a, (s.run p).1 = .ok a) ∧
      r.evaluate none 104 s.state = some (p s.state) ∧
      after.scanner.tokenize <:+ s.scanner.tokenize ∧ after.depth = 0 ∧
      after.scanner.tokenize.length < s.scanner.tokenize.length := by
  have enough : 13 * (Scanner.advance^[1] (Scanner.ofText "((a)) is true")).tokenize.length ≤ 104 := by
    decide +kernel
  obtain ⟨a, run⟩ : ∃ a, (Session.run ⟨Scanner.advance^[1] (Scanner.ofText "((a)) is true"), {}, 0, 0⟩
      ((Rule.construct .condition).parser
        (construct ⟨Scanner.advance^[1] (Scanner.ofText "((a)) is true"), {}, 0, 0⟩))).1 = .ok a := ⟨_, rfl⟩
  obtain ⟨evaluates, within, balanced, past⟩ :=
    calls_terminate "((a)) is true" 0 {} 0 0 104 (.construct .condition)
  exact ⟨enough, rfl, ⟨a, run⟩, evaluates enough, within, balanced, past rfl a run⟩

/-- Calls nest 35 deep in this condition, and with less fuel than that there is no outcome. -/
example : let s := (ofText "((a)) is true" {}).state
    ((Rule.construct .condition).evaluate none 34 s).isNone = true ∧
      ((Rule.construct .condition).evaluate none 35 s).isSome = true := by decide +kernel

end SelectSyntax.Session
