import SelectSyntax.Proofs.Expectation.Basic

/-!
The rules of the grammar list what they would have gone on with: from what is known of the current token where a
rule starts, none of the kinds that it expects is the one that it found. A truth test alone may list a `NULL` that
it found.
-/

set_option autoImplicit false
set_option relaxedAutoImplicit false

namespace SelectSyntax.Parse

open Token (Kind Keyword)
open SyntaxTree

namespace Consistent

section
variable {n : Nat} {P : Kind → Prop} {i : Inner} (forward : ∀ e, Forward (i e))
  (inside : ∀ n e, Coherent n (i e))
include forward inside

theorem conditions : Consistent n anyKind (conditions i) fun _ k => k ≠ .comma :=
  (separated rfl (forward .condition) (inside _ .condition) (inside _ .condition)).weaken
    (fun _ => id) fun _ _ h => h.2

theorem arguments : Consistent n P (arguments i) anyResult := by
  refine (expect .leftParen).bind fun _ => (eat .rightParen).bind fun closes => ?_
  cases closes with
  | true => exact .pure [] fun _ _ => trivial
  | false =>
      refine (conditions forward inside).weaken (fun _ _ => trivial) (fun _ _ => id) |>.bind
        fun args => (eat .rightParen).bind fun closes => ?_
      cases closes with
      | true => exact .pure args fun _ _ => trivial
      | false => exact .unexpected fun k h => by simp [(h rfl).1, (h rfl).2]

theorem columnOrCall : Coherent n (columnOrCall i) := by
  refine columnPath.bind fun path => kind fun k _ => ?_
  split
  · exact (arguments forward inside).bind fun _ => .pure _ fun _ _ => trivial
  · exact .pure _ fun _ _ => trivial

omit forward in
private theorem branch? :
    Consistent n anyKind (branch? i) fun o k => o = none → k ≠ .keyword .WHEN := by
  refine (eat _).bind fun taken => ?_
  cases taken with
  | true =>
      refine (inside _ .condition).known.bind fun _ =>
        (expect _).bind fun _ => (inside _ .condition).bind fun _ => .pure _ (by simp)
  | false => exact .pure none fun _ h _ => (h rfl).2

omit forward in
private theorem caseEnd (operand : Option Expr) (branches : List (Expr × Expr)) :
    Consistent n (· ≠ .keyword .WHEN) (caseEnd i operand branches) anyResult := by
  refine (after? (inside _ .condition)).bind fun otherwise => (eat _).bind fun ends => ?_
  cases ends with
  | true => exact .pure _ fun _ _ => trivial
  | false =>
      cases otherwise with
      | some e => exact .unexpected fun k h => by simp [(h rfl).2]
      | none =>
          exact .unexpected fun k h => by simp [((h rfl).1 rfl).1, ((h rfl).1 rfl).2, (h rfl).2]

theorem caseExpr {r : Parser Expr} (row : Coherent n r) :
    Consistent (n + 1) P (caseExpr i r) anyResult := by
  have branches : ∀ operand : Option Expr, Coherent n (do
      let branches ← Parse.many (Parse.branch? i)
      if branches.isEmpty then Parse.unexpected [.keyword .WHEN]
      else Parse.caseEnd i operand branches) := by
    refine fun operand => (many (branch?_takes forward) (branch? inside)).bind fun branches => ?_
    split
    · exact .unexpected fun k h => by simpa using h
    · exact caseEnd inside operand branches
  refine afterToken rfl (kind fun k _ => ?_)
  dsimp only
  split
  · exact ((Consistent.pure none fun _ _ => trivial).bind (R := anyResult) branches)
  · have operand : Consistent n (· = k) (some <$> r) anyResult := map row.known
    exact operand.bind branches

theorem primary {r : Parser Expr} (row : Coherent n r) : Coherent (n + 1) (primary i r) := by
  have signed : Coherent (n + 1) (i .signed) := inside _ .signed
  have names : Coherent (n + 1) (Parse.columnOrCall i) := columnOrCall forward inside
  have values : Coherent (n + 1) (Parse.conditions i) :=
    (conditions forward inside).weaken (fun _ => id) fun _ _ _ => trivial
  refine token fun t _ => ?_
  obtain ⟨k, raw, place, stop⟩ := t
  cases k with
  | number | string => exact advance.bind fun _ => .pure _ fun _ _ => trivial
  | question => exact map parameter
  | plus | minus => exact advance.bind fun _ => map signed
  | identifier | star => exact names.known
  | leftParen =>
      exact map (parenthesized (forward .query) (inside _ .query) values).known
  | keyword w =>
      cases w with
      | TRUE | FALSE | NULL => exact advance.bind fun _ => .pure _ fun _ _ => trivial
      | CASE => exact caseExpr forward inside row
      | AVG | COUNT | GROUPING | MAX | MIN | NULLIF | RANK | SUM =>
          exact advance.bind fun _ => map (arguments forward inside)
      | _ =>
          refine .unexpected fun k same => ?_
          rw [same]
          show Kind.keyword _ ∉ rowStart
          decide
  | _ => exact .unexpected fun k same => by rw [same]; simp [rowStart]

theorem sum {r : Parser Expr} (forward' : Forward r) (row : Coherent n r) :
    Coherent (n + 1) (sum i r) := by
  have primaries := primary_forward forward forward'
  have powers := chain_forward primaries power?_operators.live
  exact chain sum?_operators.live (chain_forward powers product?_operators.live)
    (chain product?_operators.live powers
      (chain power?_operators.live primaries (primary forward inside row)))

theorem row : Coherent n (row i) := by
  induction n with
  | zero => intro s _ bound; omega
  | succ n ih =>
      intro s complete bound known
      rw [row_eq forward complete]
      exact sum forward inside (row_forward forward) ih s complete bound known

private theorem anyRow : Consistent n P (Parse.row i) anyResult := (row forward inside).known

private theorem comparisonEnd (left : Expr) (op : BinaryOp) : Coherent n (comparisonEnd i left op) := by
  refine (take? _).bind fun quantifier => ?_
  cases quantifier with
  | some q => exact map (enclosed (inside _ .query)).known
  | none => exact map (anyRow forward inside)

private theorem betweenEnd (negated : Bool) (operand : Expr) :
    Consistent n P (betweenEnd i negated operand) anyResult :=
  (expect _).bind fun _ => (anyRow forward inside).bind fun _ => (expect _).bind fun _ =>
    (anyRow forward inside).bind fun _ => .pure _ fun _ _ => trivial

private theorem inEnd (negated : Bool) (operand : Expr) :
    Consistent n P (inEnd i negated operand) anyResult := by
  have values : Coherent n (Parse.conditions i) :=
    (conditions forward inside).weaken (fun _ => id) fun _ _ _ => trivial
  refine (expect _).bind fun _ => (parenthesized (forward .query) (inside _ .query) values).bind fun x => ?_
  cases x with
  | inl query => exact .pure _ fun _ _ => trivial
  | inr values => exact .pure _ fun _ _ => trivial

private theorem likeEnd (negated : Bool) (operand : Expr) :
    Consistent n P (likeEnd i negated operand) anyResult :=
  (expect _).bind fun _ => (anyRow forward inside).bind fun _ =>
    (after? (anyRow forward inside)).bind fun _ => .pure _ fun _ _ => trivial

private theorem negatedEnd (operand : Expr) : Coherent n (negatedEnd i operand) := by
  refine kind fun k _ => ?_
  split
  · exact betweenEnd forward inside true operand
  · exact inEnd forward inside true operand
  · exact likeEnd forward inside true operand
  · rename_i between in_ like
    exact .unexpected fun j same => by simpa [same] using ⟨between, in_, like⟩

private theorem predicateEnd (operand : Expr) : Coherent n (predicateEnd i operand) := by
  have null : Coherent n isNull? := by
    intro s complete _ _
    exact ⟨fun o t run => ⟨isNull?_step.forward.of_ok complete run, trivial⟩,
      fun f t run => absurd run isNull?_ne_error⟩
  refine null.bind fun o => ?_
  cases o with
  | some negated => exact .pure _ fun _ _ => trivial
  | none =>
      refine kind fun k _ => ?_
      split
      · exact advance.bind fun _ => negatedEnd forward inside operand
      · exact betweenEnd forward inside false operand
      · exact inEnd forward inside false operand
      · exact likeEnd forward inside false operand
      · exact .pure _ fun _ _ => trivial

/-- A predicate is called only where no `NOT` stands, which it would list. -/
theorem predicate : Consistent n (· ≠ .keyword .NOT) (predicate i) anyResult := by
  refine (eat _).bind fun exists_ => ?_
  cases exists_ with
  | true => exact map (enclosed (inside _ .query)).known
  | false =>
      refine kind fun k known => ?_
      split
      · refine (anyRow forward inside).bind fun left => (take? _).bind fun op => ?_
        cases op with
        | some op => exact (comparisonEnd forward inside left op).known
        | none => exact (predicateEnd forward inside left).known
      · rename_i other
        refine .unexpected fun j same => ?_
        have no := known rfl
        simp only [conditionStart, List.mem_cons, same, not_or]
        exact ⟨no.1, no.2, by simpa using other⟩

/-- What a truth test lists after `IS`, it finds only if that is `NULL`. -/
theorem truthTest : Consistent n (· ≠ .keyword .NOT) (truthTest i) anyResult := by
  refine (predicate forward inside).bind fun operand => (eat _).bind fun is => ?_
  cases is with
  | false => exact .pure _ fun _ _ => trivial
  | true =>
      refine (eat _).bind fun negated => (take? _).bind fun value => ?_
      cases value with
      | some value => exact .pure _ fun _ _ => trivial
      | none =>
          refine .giveUp fun k known mem => ⟨?_, negated, rfl⟩
          obtain ⟨not, none_⟩ := known rfl
          cases negated with
          | true =>
              simp only [afterIs, if_true, List.nil_append, List.mem_cons, List.not_mem_nil,
                or_false] at mem
              rcases mem with rfl | rfl | rfl | null <;> first | exact null | cases none_
          | false =>
              simp only [afterIs, Bool.false_eq_true, if_false, List.cons_append, List.nil_append,
                List.mem_cons, List.not_mem_nil, or_false] at mem
              rcases mem with rfl | rfl | rfl | rfl | null
              · exact absurd rfl (not rfl).2
              · cases none_
              · cases none_
              · cases none_
              · exact null

theorem negation : Coherent n (negation i) := by
  refine (eat _).bind fun not => ?_
  cases not with
  | true => exact map (inside _ .negated).known
  | false =>
      exact (truthTest forward inside).weaken (fun _ h => (h rfl).2) fun _ _ => id

theorem condition : Coherent n (condition i) := by
  have negations := negation_forward forward
  exact chain or?_operators.live (chain_forward negations and?_operators.live)
    (chain and?_operators.live negations (negation forward inside))

omit forward inside in
/-- What may follow `NATURAL` does not stand where there is no side of a join, and of what may follow a side
only `JOIN` stands after it. -/
private theorem joinSide? : Consistent n P joinSide? fun o k =>
    (o = none → k ∉ afterNatural) ∧ ∀ side, o = some side → k ≠ .keyword .JOIN → k ∉ afterSide side := by
  -- the words of an outer join
  have outer : ∀ (make : Bool → JoinSide) (j : Kind), afterSide (make true) = [.keyword .JOIN] →
      afterSide (make false) = [.keyword .OUTER, .keyword .JOIN] → Consistent n (· = j)
        (do
          Parse.advance
          let outer ← Parse.eat (.keyword .OUTER)
          Pure.pure (some (make outer)) : Parser (Option JoinSide)) fun o k =>
        (o = none → k ∉ afterNatural) ∧
          ∀ side, o = some side → k ≠ .keyword .JOIN → k ∉ afterSide side := by
    intro make j with_ without
    refine advance.bind fun _ => (eat _).bind fun outer => .pure _ fun k h => ⟨by simp, ?_⟩
    rintro side ⟨⟩ other
    cases outer with
    | true => simpa [with_] using other
    | false => simpa [without] using ⟨(h rfl).2, other⟩
  refine kind fun k _ => ?_
  split
  · exact .pure _ fun j same => ⟨by simp, fun _ _ other => absurd same other⟩
  · refine advance.bind fun _ => .pure _ fun j _ => ⟨by simp, ?_⟩
    rintro side ⟨⟩ other
    simpa [afterSide] using other
  · exact outer .left _ rfl rfl
  · exact outer .right _ rfl rfl
  · exact outer .full _ rfl rfl
  · rename_i plain inner left right full
    refine .pure _ fun j same => ⟨fun _ => ?_, by simp⟩
    simpa [same, afterNatural] using ⟨plain, inner, left, right, full⟩

omit forward inside in
theorem joinKind? : Coherent n joinKind? := by
  refine (eat _).bind fun cross => ?_
  cases cross with
  | true => exact (expect _).bind fun _ => .pure _ fun _ _ => trivial
  | false =>
      refine (eat _).bind fun natural => joinSide?.bind fun side => ?_
      cases side with
      | none =>
          cases natural with
          | true => exact .unexpected fun k h => h.1 rfl
          | false => exact .pure _ fun _ _ => trivial
      | some side =>
          refine (eat _).bind fun join => ?_
          cases join with
          | true => exact .pure _ fun _ _ => trivial
          | false => exact .unexpected fun k h => (h rfl).1.2 side rfl (h rfl).2

private theorem tableInParens : Coherent n (tableInParens i) := by
  refine (parenthesized (forward .query) (inside _ .query) (inside _ .table)).bind fun x => ?_
  cases x with
  | inl query => exact requiredAlias.bind fun _ => optionalColumns.bind fun _ => .pure _ fun _ _ => trivial
  | inr table => exact .pure _ fun _ _ => trivial

theorem tablePrimary : Coherent n (tablePrimary i) := by
  refine kind fun k _ => ?_
  split
  · exact (separated rfl identifier_forward identifier identifier).bind fun _ =>
      optionalAlias.bind fun _ => .pure _ fun _ _ => trivial
  · exact (tableInParens forward inside).known
  · rename_i name paren
    exact .unexpected fun j same => by simpa [same] using ⟨name, paren⟩

omit forward in
private theorem joinCondition (joinKind : JoinKind) : Coherent n (joinCondition i joinKind) := by
  unfold Parse.joinCondition
  split
  · exact (expect _).bind fun _ => map (inside _ .condition).known
  · refine kind fun k _ => ?_
    split
    · rename_i on
      exact .fail fun s known => known.trans on
    · exact .pure _ fun _ _ => trivial

private theorem join? : Coherent n (join? i) := by
  refine joinKind?.bind fun k => ?_
  cases k with
  | none => exact .pure _ fun _ _ => trivial
  | some k =>
      exact (tablePrimary forward inside).known.bind fun _ => (joinCondition inside k).bind
        fun _ => .pure _ fun _ _ => trivial

theorem table : Coherent n (table i) :=
  (tablePrimary forward inside).bind fun _ => (many (join?_takes forward) (E := anyKind)
    ((join? forward inside).weaken (fun _ => id) fun _ _ _ _ => trivial)).bind fun _ =>
      .pure _ fun _ _ => trivial

omit forward inside in
theorem setQuantifier : Consistent n P setQuantifier anyResult :=
  (take? _).bind fun _ => .pure _ fun _ _ => trivial

private theorem orderItem : Coherent n (orderItem i) :=
  (row forward inside).bind fun _ => (take? _).bind fun _ => .pure _ fun _ _ => trivial

private theorem projection : Coherent n (projection i) :=
  (row forward inside).bind fun _ => optionalAlias.bind fun _ => .pure _ fun _ _ => trivial

private theorem tables : Coherent n (tables i) := by
  refine (eat _).bind fun taken => ?_
  cases taken with
  | false => exact .pure _ fun _ _ => trivial
  | true =>
      have entries : Coherent n (Parse.commaList (i .table)) :=
        (separated rfl (forward .table) (inside _ .table) (inside _ .table)).weaken (fun _ => id)
          fun _ _ _ => trivial
      exact entries.known

private theorem grouping? : Coherent n (grouping? i) := by
  refine (eat _).bind fun taken => ?_
  cases taken with
  | false => exact .pure _ fun _ _ => trivial
  | true =>
      exact (expect _).bind fun _ => setQuantifier.bind fun _ =>
        (separated rfl (row_forward forward) (row forward inside) (row forward inside)).bind fun _ =>
          .pure _ fun _ _ => trivial

omit forward in
private theorem clause (k : Keyword) :
    Coherent n (Parse.after? (.keyword k) (i .condition)) :=
  (after? (inside _ .condition)).weaken (fun _ => id) fun _ _ _ => trivial

theorem selectBlock : Coherent n (selectBlock i) := by
  have projections : Coherent n (Parse.commaList (Parse.projection i)) :=
    (separated rfl (projection_forward forward) (projection forward inside)
      (projection forward inside)).weaken (fun _ => id) fun _ _ _ => trivial
  exact (expect _).bind fun _ => setQuantifier.bind fun _ => projections.bind fun _ =>
    (tables forward inside).bind fun _ => (clause inside .WHERE).bind fun _ =>
    (grouping? forward inside).bind fun _ => (clause inside .HAVING).bind fun _ =>
    .pure _ fun _ _ => trivial

theorem bodyPrimary : Coherent n (bodyPrimary i) := by
  refine kind fun k _ => ?_
  split
  · exact map (selectBlock forward inside).known
  · exact (enclosed (inside _ .body)).known
  · rename_i select paren
    exact .unexpected fun j same => by simpa [same] using ⟨select, paren⟩

omit forward inside in
theorem setChain {operator : Kind → Option SetOp}
    (live : ∀ k op, operator k = some op → k.isTerminal = false) {p : Parser Body} (forward : Forward p)
    (h : Coherent n p) : Coherent n (setChain operator p) := by
  have tails : Coherent n (setTail? operator p) := by
    refine (take? operator).bind fun op => ?_
    cases op with
    | none => exact .pure none fun _ _ => trivial
    | some op => exact setQuantifier.bind fun _ => Consistent.bind h fun _ => .pure _ fun _ _ => trivial
  exact h.bind fun _ => .bind (.many (setTail?_takes forward live) (E := anyKind)
    (tails.weaken (fun _ => id) fun _ _ _ _ => trivial)) fun _ => .pure _ fun _ _ => trivial

theorem body : Coherent n (body i) := by
  have blocks := bodyPrimary_forward forward
  exact setChain unionOrExcept?_operators.live (setChain_forward blocks intersect?_operators.live)
    (setChain intersect?_operators.live blocks (bodyPrimary forward inside))

omit forward in
theorem namedQuery : Coherent n (namedQuery i) := by
  refine identifier.bind fun _ => optionalColumns.bind fun columns => (eat _).bind fun as => ?_
  cases as with
  | true => exact (enclosed (inside _ .query)).known.bind fun _ => .pure _ fun _ _ => trivial
  | false =>
      cases columns with
      | nil => exact .unexpected fun k h => by simp [(h rfl).1 rfl, (h rfl).2]
      | cons name names => exact .unexpected fun k h => by simp [(h rfl).2]

theorem withClause? : Coherent n (withClause? i) := by
  refine (eat _).bind fun taken => ?_
  cases taken with
  | false => exact .pure _ fun _ _ => trivial
  | true =>
      exact (eat _).bind fun _ =>
        (separated rfl (namedQuery_forward forward) (namedQuery inside).known (namedQuery inside)).bind
          fun _ => .pure _ fun _ _ => trivial

theorem orderBy : Coherent n (orderBy i) := by
  refine (eat _).bind fun taken => ?_
  cases taken with
  | false => exact .pure _ fun _ _ => trivial
  | true =>
      have items : Coherent n (Parse.commaList (Parse.orderItem i)) :=
        (separated rfl (orderItem_forward forward) (orderItem forward inside)
          (orderItem forward inside)).weaken (fun _ => id) fun _ _ _ => trivial
      exact (expect _).bind fun _ => items

theorem query : Coherent n (query i) :=
  (withClause? forward inside).bind fun _ => (body forward inside).bind fun _ =>
    (orderBy forward inside).bind fun _ => .pure _ fun _ _ => trivial

theorem rule (e : Entry) : Coherent n (rule i e) := by
  cases e with
  | query => exact query forward inside
  | body => exact body forward inside
  | condition => exact condition forward inside
  | negated => exact negation forward inside
  | signed =>
      exact mono (Nat.le_succ n) (primary forward inside (row forward inside))
  | table => exact table forward inside

end

end Consistent

theorem levelled_coherent (limit levels n : Nat) (e : Entry) : Coherent n (levelled limit levels e) := by
  induction levels generalizing n e with
  | zero => exact Consistent.fail fun _ _ => trivial
  | succ levels ih => exact .rule (levelled_forward limit levels) ih e

end SelectSyntax.Parse

namespace SelectSyntax.Session

open Parse
open Token (Kind)
open SyntaxTree (Expr)

theorem Call.parser_coherent (c : Call) (s : Session) (n : Nat) : Coherent n (c.parser s) := by
  cases c with
  | statement =>
      refine (levelled_coherent _ _ n .query).bind fun statement => (Consistent.eat .semicolon).bind
        fun _ => .kind fun k _ => ?_
      split
      · rename_i more
        refine .unexpected fun j same => ?_
        rw [same]
        simp only [Bool.and_eq_true, bne_iff_ne] at more
        simpa using more.2
      · exact .pure _ fun _ _ => trivial
  | query => exact levelled_coherent _ _ n .query
  | condition => exact levelled_coherent _ _ n .condition

/-- The token that an error found is none of the kinds that it lists as expected, unless that token is a
`NULL` and the list is what may follow an `IS` or an `IS NOT`. -/
theorem found_not_expected (c : Call) (text : String) (config : Config) {e : ParseError}
    (run : (c.run (ofText text config)).1 = .error e) :
    e.found.kind ∉ e.expected ∨
      e.found.kind = .keyword .NULL ∧ ∃ negated, e.expected = afterIs negated := by
  rw [c.run_eq] at run
  obtain ⟨f, t, read, rfl⟩ := run_eq_error.mp run
  have coherent := c.parser_coherent (ofText text config) _ _ (ofText text config).complete
    (Nat.lt_succ_self _) trivial
  have consistent := coherent.2 f t read
  by_cases mem : f.toError.found.kind ∈ f.toError.expected
  · refine Or.inr ?_
    cases cause : f.cause with
    | unexpected expected =>
        simp only [Failure.Consistent, cause] at consistent
        simp only [Failure.toError, ParseError.expected, cause] at mem ⊢
        exact consistent mem
    | notAllowed what => simp [Failure.toError, ParseError.expected, cause] at mem
    | tooDeep limit => simp [Failure.toError, ParseError.expected, cause] at mem
  · exact Or.inl mem

/-- A name after an argument, where the list of arguments goes on or ends. -/
theorem found_not_expected_argument :
    let e : ParseError := ⟨.unexpected [.comma, .rightParen], ⟨.identifier, "b", ⟨4, 1, 5⟩, 5⟩⟩
    (Call.condition.run (ofText "f(a b" {})).1 = .error e ∧
      (e.found.kind ∉ e.expected ∨
        e.found.kind = .keyword .NULL ∧ ∃ negated, e.expected = afterIs negated) := by
  have run : (Call.condition.run (ofText "f(a b" {})).1 =
      .error ⟨.unexpected [.comma, .rightParen], ⟨.identifier, "b", ⟨4, 1, 5⟩, 5⟩⟩ := rfl
  exact ⟨run, found_not_expected .condition _ {} run⟩

/-- A `NULL` after the `IS` of a comparison is refused, and listed as expected. -/
theorem null_found_and_expected :
    let e : ParseError := ⟨.unexpected (afterIs false), ⟨.keyword .NULL, "NULL", ⟨9, 1, 10⟩, 13⟩⟩
    (Call.condition.run (ofText "a = 1 IS NULL" {})).1 = .error e ∧ e.kind = .unexpectedToken ∧
      e.found.kind ∈ e.expected :=
  ⟨rfl, rfl, by decide⟩

end SelectSyntax.Session
