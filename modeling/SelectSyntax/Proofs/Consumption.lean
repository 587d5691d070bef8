import SelectSyntax.Proofs.Calls
import SelectSyntax.Proofs.Recursion

/-!
Rules that take a token. Every rule stays among the tokens ahead of it, and every one that is not there for
something optional has gone past a token where it succeeds.
-/

set_option autoImplicit false
set_option relaxedAutoImplicit false

namespace SelectSyntax.Parse

open Token (Kind)
open SyntaxTree (BinaryOp Body Expr SetOp Statement TableRef)

/-- A forward parser that has gone past a token wherever it succeeds. -/
structure Consumes {α : Type} (p : Parser α) : Prop where
  forward : Forward p
  takes : ∀ s a t, s.Complete → p s = .ok a t → t.remaining < s.remaining

namespace Consumes

section
variable {α β : Type} {p q : Parser α} {f : α → Parser β}

theorem fail (cause : Cause) : Consumes (fail cause : Parser α) where
  forward s _ := ⟨.refl _, .refl s⟩
  takes s a t _ run := by cases run

theorem unexpected (expected : List Kind) : Consumes (unexpected expected : Parser α) :=
  fail _

theorem expect {k : Kind} (live : k.isTerminal = false) : Consumes (expect k) where
  forward := (expect_step live).forward
  takes s a t complete run := by
    obtain ⟨kind, rfl⟩ := expect_eq_ok.mp run
    exact complete.remaining_advance (kind ▸ live)

theorem andThen (first : Consumes p) (rest : ∀ a, Forward (f a)) : Consumes (p >>= f) where
  forward := first.forward.bind rest
  takes s b u complete run := by
    obtain ⟨a, t, run₁, run₂⟩ := bind_eq_ok.mp run
    have ahead := (first.forward.of_ok complete run₁).complete complete
    have fewer := ((rest a).of_ok ahead run₂).remaining_le
    exact Nat.lt_of_le_of_lt fewer (first.takes s a t complete run₁)

theorem after (first : Forward p) (rest : ∀ a, Consumes (f a)) : Consumes (p >>= f) where
  forward := first.bind fun a => (rest a).forward
  takes s b u complete run := by
    obtain ⟨a, t, run₁, run₂⟩ := bind_eq_ok.mp run
    have within := first.of_ok complete run₁
    have less := (rest a).takes t b u (within.complete complete) run₂
    exact Nat.lt_of_lt_of_le less within.remaining_le

/-- A step takes a token where its value says so; otherwise the rest has to. -/
theorem step {takes : α → Bool} (plain : Step p takes)
    (rest : ∀ a, takes a = true ∧ Forward (f a) ∨ Consumes (f a)) : Consumes (p >>= f) where
  forward := plain.forward.bind fun a => (rest a).elim And.right Consumes.forward
  takes s b u complete run := by
    obtain ⟨a, t, run₁, run₂⟩ := bind_eq_ok.mp run
    have step := plain.stays s complete
    rw [run₁] at step
    have ahead := step.1.complete complete
    rcases rest a with ⟨taken, forward⟩ | consumes
    · exact Nat.lt_of_le_of_lt (forward.of_ok ahead run₂).remaining_le (step.2 taken)
    · exact Nat.lt_of_lt_of_le (consumes.takes t b u ahead run₂) step.1.remaining_le

theorem map (g : α → β) (h : Consumes p) : Consumes (g <$> p) := by
  rw [map_eq_pure_bind]
  exact h.andThen fun a => .pure (g a)

theorem kind {f : Kind → Parser β} (rest : ∀ k, Consumes (f k)) : Consumes (Parse.kind >>= f) where
  forward := .kind fun k => (rest k).forward
  takes s a t complete run := (rest s.kind).takes s a t complete run

theorem separated {k : Kind} (live : k.isTerminal = false) (h : Consumes p) : Consumes (separated k p) :=
  h.andThen fun _ => forward_of_alike (.bind (.many (.after? live (.free h.forward))) fun _ => .pure _)

theorem commaList (h : Consumes p) : Consumes (commaList p) :=
  h.separated rfl

theorem chain {operator : Kind → Option BinaryOp}
    (live : ∀ k op, operator k = some op → k.isTerminal = false) {p : Parser Expr} (h : Consumes p) :
    Consumes (chain operator p) :=
  h.andThen fun _ => forward_of_alike (.bind (.many (.tail? live (.free h.forward))) fun _ => .pure _)

theorem setChain {operator : Kind → Option SetOp}
    (live : ∀ k op, operator k = some op → k.isTerminal = false) {p : Parser Body} (h : Consumes p) :
    Consumes (setChain operator p) :=
  h.andThen fun _ => forward_of_alike (.bind (.many (.setTail? live (.free h.forward))) fun _ => .pure _)

theorem enclosed (h : Forward p) : Consumes (enclosed p) :=
  (expect rfl).andThen fun _ => h.closed

theorem parenthesized {query : Parser Statement} (first : Forward query) (second : Forward p) :
    Consumes (parenthesized query p) :=
  (expect rfl).andThen fun _ s complete => first.readings second s.kind s complete

end

private theorem name (expected : List Kind) : Consumes (identifier? >>= fun name =>
    match name with
    | some name => pure name
    | none => Parse.unexpected expected) := by
  refine .step identifier?_step fun name => ?_
  cases name with
  | none => exact .inr (unexpected _)
  | some name => exact .inl ⟨rfl, .pure name⟩

theorem identifier : Consumes identifier :=
  name _

theorem identifierList : Consumes identifierList := by
  refine (expect rfl).andThen fun _ => forward_of_alike (.bind (.commaList .identifier) fun _ =>
    .step (eat_step rfl) fun closes => ?_)
  cases closes with
  | false => exact .unexpected _
  | true => exact .pure _

theorem requiredAlias : Consumes requiredAlias := by
  refine .step (eat_step rfl) fun as => ?_
  cases as with
  | false => exact .inr (name _)
  | true => exact .inl ⟨rfl, identifier.forward⟩

theorem columnPath : Consumes columnPath := by
  have forward : Forward Parse.columnPath := forward_of_alike .columnPath
  have names : Consumes (pathThen Parse.columnPath) := by
    refine .step (eat_step rfl) fun star => ?_
    cases star with
    | true => exact .inl ⟨rfl, .pure _⟩
    | false =>
        refine .inr (.step identifier?_step fun name => ?_)
        cases name with
        | none => exact .inr (unexpected _)
        | some name =>
            refine .inl ⟨rfl, (eat_step rfl).forward.bind fun dot => ?_⟩
            cases dot with
            | false => exact .pure _
            | true => exact forward.bind fun _ => .pure _
  refine ⟨forward, fun s path t complete run => ?_⟩
  rw [columnPath_eq complete] at run
  exact names.takes s path t complete run

section
variable {i : Inner} (inside : ∀ e, Forward (i e))
include inside

theorem arguments : Consumes (arguments i) := by
  refine (expect rfl).andThen fun _ => (eat_step rfl).forward.bind fun closes => ?_
  cases closes with
  | true => exact .pure _
  | false =>
      refine (conditions_forward inside).bind fun _ => (eat_step rfl).forward.bind fun closes => ?_
      cases closes with
      | true => exact .pure _
      | false => exact (unexpected _).forward

theorem columnOrCall : Consumes (columnOrCall i) := by
  refine columnPath.andThen fun path => .kind fun k => ?_
  split
  · exact (arguments inside).forward.bind fun _ => .pure _
  · exact .pure _

theorem caseExpr {r : Parser Expr} (row : Forward r) : Consumes (caseExpr i r) := by
  have rest := fun operand => forward_of_alike (.caseRest inside operand)
  refine (expect rfl).andThen fun _ => .kind fun k => ?_
  dsimp only
  split
  · exact (Forward.pure _).bind rest
  · exact (row.map _).bind rest

/-- Every primary has a token in front, whatever it goes on with. -/
theorem primary {r : Parser Expr} (row : Forward r) : Consumes (primary i r) := by
  have forward := primary_forward inside row
  have past : ∀ {q : Parser Expr} {s t : State} {a : Expr}, Forward q → s.Complete →
      s.kind.isTerminal = false → (Parse.advance >>= fun _ => q) s = .ok a t → t.remaining < s.remaining := by
    intro q s t a rest complete live run
    have fewer := (rest.of_ok (s.advance_within.complete complete) run).remaining_le
    exact Nat.lt_of_le_of_lt fewer (complete.remaining_advance live)
  refine ⟨forward, fun s a t complete run => ?_⟩
  have looked : Parse.token s = .ok s.token s := rfl
  rw [Parse.primary, bind_of_ok looked] at run
  generalize kind : s.token.kind = found at run
  have live : found.isTerminal = false → s.kind.isTerminal = false := fun h => by rw [State.kind, kind, h]
  split at run
  case h_6 =>
    obtain ⟨n, taken, rfl⟩ := map_eq_ok.mp run
    cases taken
    exact complete.remaining_advance (live rfl)
  case h_7 | h_8 => exact past ((inside .signed).map _) complete (live rfl) run
  case h_9 => exact (caseExpr inside row).takes s a t complete run
  case h_10 | h_11 => exact (columnOrCall inside).takes s a t complete run
  case h_12 =>
    exact ((parenthesized (inside .query) (conditions_forward inside)).map _).takes s a t complete run
  case h_13 =>
    split at run
    · exact past ((arguments inside).forward.map _) complete (live rfl) run
    · cases run
  case h_14 => cases run
  all_goals exact past (.pure _) complete (live rfl) run

theorem row : Consumes (row i) := by
  refine ⟨row_forward inside, fun s a t complete run => ?_⟩
  rw [row_eq inside complete] at run
  have sum : Consumes (sum i (Parse.row i)) :=
    .chain sum?_operators.live (.chain product?_operators.live (.chain power?_operators.live
      (primary inside (row_forward inside))))
  exact sum.takes s a t complete run

theorem betweenEnd (negated : Bool) (operand : Expr) : Consumes (betweenEnd i negated operand) :=
  (expect rfl).andThen fun _ => (row inside).forward.bind fun _ => (expect rfl).forward.bind fun _ =>
    (row inside).forward.bind fun _ => .pure _

theorem inEnd (negated : Bool) (operand : Expr) : Consumes (inEnd i negated operand) := by
  refine (expect rfl).andThen fun _ => (values_forward inside).bind fun found => ?_
  cases found with
  | inl query => exact .pure _
  | inr values => exact .pure _

theorem likeEnd (negated : Bool) (operand : Expr) : Consumes (likeEnd i negated operand) :=
  (expect rfl).andThen fun _ => (row inside).forward.bind fun _ =>
    (after?_takes (row inside).forward rfl).forward.bind fun _ => .pure _

theorem predicate : Consumes (predicate i) := by
  refine .step (eat_step rfl) fun word => ?_
  cases word with
  | true => exact .inl ⟨rfl, (enclosed (inside .query)).forward.map _⟩
  | false =>
      refine .inr (.kind fun k => ?_)
      split
      · exact (row inside).andThen fun left =>
          forward_of_alike (.predicateRest inside (.free (values_forward inside)) left)
      · exact .unexpected _

theorem truthTest : Consumes (truthTest i) :=
  (predicate inside).andThen fun operand => forward_of_alike (.truthTestRest operand)

theorem negation : Consumes (negation i) := by
  refine .step (eat_step rfl) fun word => ?_
  cases word with
  | true => exact .inl ⟨rfl, (inside .negated).map _⟩
  | false => exact .inr (truthTest inside)

theorem projection : Consumes (projection i) :=
  (row inside).andThen fun _ => forward_of_alike (.bind .optionalAlias fun _ => .pure _)

theorem selectBlock : Consumes (selectBlock i) :=
  (expect rfl).andThen fun _ => forward_of_alike (.bind .setQuantifier fun _ =>
    .bind (.commaList (.free (projection inside).forward)) fun _ => .bind (.tables inside) fun _ =>
    .bind (.after? rfl (.held (inside .condition))) fun _ =>
    .bind (.grouping? inside (.free (values_forward inside))) fun _ =>
    .bind (.after? rfl (.held (inside .condition))) fun _ => .pure _)

theorem bodyPrimary : Consumes (bodyPrimary i) := by
  refine .kind fun k => ?_
  split
  · exact (selectBlock inside).map _
  · exact enclosed (inside .body)
  · exact .unexpected _

theorem body : Consumes (body i) :=
  .setChain unionOrExcept?_operators.live (.setChain intersect?_operators.live (bodyPrimary inside))

theorem query : Consumes (query i) :=
  .after (forward_of_alike (.withClause? inside)) fun _ => (body inside).andThen fun _ =>
    forward_of_alike (.bind (.orderBy inside (.free (values_forward inside))) fun _ => .pure _)

theorem namedQuery : Consumes (namedQuery i) := by
  refine identifier.andThen fun _ => forward_of_alike (.bind .optionalColumns fun columns =>
    .step (eat_step rfl) fun word => ?_)
  cases word with
  | true => exact .bind (.free (enclosed (inside .query)).forward) fun _ => .pure _
  | false =>
      simp only [Bool.false_eq_true, if_false]
      split
      · exact .unexpected _
      · exact .unexpected _

theorem tablePrimary : Consumes (tablePrimary i) := by
  refine .kind fun k => ?_
  split
  · exact (separated rfl identifier).andThen fun _ =>
      forward_of_alike (.bind .optionalAlias fun _ => .pure _)
  · exact (parenthesized (inside .query) (inside .table)).andThen fun found =>
      forward_of_alike (.tableInParensRest found)
  · exact .unexpected _

theorem table : Consumes (table i) :=
  (tablePrimary inside).andThen fun _ =>
    (forward_of_alike (.many (.free (join?_takes inside).forward))).bind fun _ => .pure _

/-- A rule of a construct takes a token whatever the constructs inside it do. -/
theorem rule (e : Entry) : Consumes (rule i e) := by
  cases e with
  | query => exact query inside
  | body => exact body inside
  | condition => exact .chain or?_operators.live (.chain and?_operators.live (negation inside))
  | negated => exact negation inside
  | signed => exact primary inside (row_forward inside)
  | table => exact table inside

end

end Consumes

namespace Rule

variable {i : Inner} (entries : ∀ e, Consumes (i e))
include entries

/-- A rule that is not optional has taken a token wherever it succeeds. -/
theorem parser_consumes {r : Rule} (needed : r.optional = false) : Consumes (r.parser i) := by
  have inside := fun e => (entries e).forward
  cases r with
  | whole requireEnd =>
      refine (entries .query).andThen fun _ => (eat_step rfl).forward.bind fun _ => .kind fun k => ?_
      split
      · exact (Consumes.unexpected _).forward
      · exact .pure _
  | construct e => exact entries e
  | query => exact .query inside
  | namedQuery => exact .namedQuery inside
  | body => exact .body inside
  | intersections => exact .setChain intersect?_operators.live (.bodyPrimary inside)
  | bodyPrimary => exact .bodyPrimary inside
  | selectBlock => exact .selectBlock inside
  | projection => exact .projection inside
  | condition => exact .rule inside .condition
  | conjunction => exact .chain and?_operators.live (.negation inside)
  | negation => exact .negation inside
  | truthTest => exact .truthTest inside
  | predicate => exact .predicate inside
  | betweenEnd negated operand => exact .betweenEnd inside negated operand
  | inEnd negated operand => exact .inEnd inside negated operand
  | likeEnd negated operand => exact .likeEnd inside negated operand
  | conditions => exact .commaList (entries .condition)
  | row => exact .row inside
  | product =>
      exact .chain product?_operators.live (.chain power?_operators.live (.primary inside (row_forward inside)))
  | power => exact .chain power?_operators.live (.primary inside (row_forward inside))
  | primary => exact .primary inside (row_forward inside)
  | columnOrCall => exact .columnOrCall inside
  | arguments => exact .arguments inside
  | caseExpr => exact .caseExpr inside (row_forward inside)
  | values => exact .parenthesized (inside .query) (conditions_forward inside)
  | table => exact .table inside
  | tablePrimary => exact .tablePrimary inside
  | tableInParens => exact .parenthesized (inside .query) (inside .table)
  | requiredAlias => exact .requiredAlias
  | identifierList => exact .identifierList
  | withClause? | orderBy | joinKind? | optionalAlias | setQuantifier => cases needed

theorem parser_forward (r : Rule) : Forward (r.parser i) := by
  have inside := fun e => (entries e).forward
  cases r with
  | withClause? => exact forward_of_alike (.withClause? inside)
  | orderBy => exact forward_of_alike (.orderBy inside (.free (values_forward inside)))
  | joinKind? => exact joinKind?_takes.forward
  | optionalAlias => exact forward_of_alike .optionalAlias
  | setQuantifier => exact forward_of_alike .setQuantifier
  | _ => exact (parser_consumes entries rfl).forward

end Rule

end SelectSyntax.Parse
