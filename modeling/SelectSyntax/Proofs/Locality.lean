import SelectSyntax.Proofs.DepthLimit
import SelectSyntax.Proofs.Recognition
import SelectSyntax.Proofs.Recursion

/-!
What a parser does depends only on the tokens that it has come to. Of two runs on tokens that are the same up
to some point the second one does what the first one does, as long as the first one stays in front of that
point; where the first one fails in front of it, the second one fails.
-/

set_option autoImplicit false
set_option relaxedAutoImplicit false

namespace SelectSyntax.Parse

open Token (Kind)
open SyntaxTree (BinaryOp Body Expr JoinKind SetOp Statement TableRef)

namespace State

theorem length_symbols (s : State) : s.symbols.length = s.remaining + 1 := by
  simp [symbols, Cursor.snapshots, remaining, Cursor.remaining]

theorem symbols_eq_cons (s : State) :
    s.symbols = s.token.symbol :: s.cursor.ahead.map fun p => p.token.symbol := rfl

theorem Complete.symbols_of_live {s : State} (complete : s.Complete) (live : s.kind.isTerminal = false) :
    s.symbols = s.token.symbol :: s.advance.symbols := by
  rw [symbols, Cursor.Complete.snapshots_advance complete live]
  rfl

theorem Complete.advance_of_terminal {s : State} (complete : s.Complete)
    (terminal : s.kind.isTerminal = true) : s.advance = s := by
  have alone : s.cursor.ahead = [] := complete.isTerminal_iff.mp terminal
  simp [State.advance, Cursor.advance, alone]

end State

/-- Complete states with as many parameters numbered and the same symbols ahead, up to two rests of them
that do not start at once. -/
structure Twins (x x' : Word) (s s' : State) : Prop where
  complete : s.Complete
  complete' : s'.Complete
  parameters : s.parameters = s'.parameters
  shared : ∃ u, u ≠ [] ∧ s.symbols = u ++ x ∧ s'.symbols = u ++ x'

namespace Twins

variable {x x' : Word} {s s' : State}

theorem symbol (h : Twins x x' s s') : s.token.symbol = s'.token.symbol := by
  obtain ⟨u, some_, same, same'⟩ := h.shared
  cases u with
  | nil => exact absurd rfl some_
  | cons σ u =>
      rw [State.symbols_eq_cons] at same same'
      exact (List.cons.inj same).1.trans (List.cons.inj same').1.symm

theorem kind (h : Twins x x' s s') : s.kind = s'.kind := congrArg Symbol.kind h.symbol

theorem value (h : Twins x x' s s') : s.token.value = s'.token.value := congrArg Symbol.text h.symbol

/-- One token further the rests have still not started, if enough tokens are left. -/
theorem advance (h : Twins x x' s s') (le : x.length ≤ s.advance.remaining) :
    Twins x x' s.advance s'.advance := by
  cases terminal : s.kind.isTerminal with
  | true =>
      rw [h.complete.advance_of_terminal terminal,
        h.complete'.advance_of_terminal (h.kind ▸ terminal)]
      exact h
  | false =>
      refine ⟨s.advance_within.complete h.complete, s'.advance_within.complete h.complete',
        h.parameters, ?_⟩
      obtain ⟨u, some_, same, same'⟩ := h.shared
      rw [h.complete.symbols_of_live terminal] at same
      rw [h.complete'.symbols_of_live (h.kind ▸ terminal)] at same'
      cases u with
      | nil => exact absurd rfl some_
      | cons σ u =>
          have ahead := (List.cons.inj same).2
          refine ⟨u, ?_, ahead, (List.cons.inj same').2⟩
          rintro rfl
          have length : s.advance.symbols.length = x.length := congrArg List.length ahead
          rw [State.length_symbols] at length
          omega

end Twins

section
variable {α β : Type} {p : Parser α} {x x' : Word} {s s' : State}

/-- The second outcome is like the first one, unless the first one came to the rest of the tokens. -/
def Mirrors (x x' : Word) (r r' : EStateM.Result Failure State α) : Prop :=
  match r with
  | .ok a t => x.length ≤ t.remaining → ∃ t', r' = .ok a t' ∧ Twins x x' t t'
  | .error f _ => x.length ≤ f.remaining → ∃ f' t', r' = .error f' t'

/-- A parser that goes forward and depends only on the tokens that it has come to. -/
structure Local (p : Parser α) : Prop where
  forward : Forward p
  mirrors : ∀ x x' s s', Twins x x' s s' → Mirrors x x' (p s) (p s')

theorem Mirrors.of_far (forward : Forward p) (complete : s.Complete) (far : s.remaining < x.length)
    (r' : EStateM.Result Failure State α) : Mirrors x x' (p s) r' := by
  cases run : p s with
  | ok a t =>
      intro le
      have fewer := (forward.of_ok complete run).remaining_le
      omega
  | error f t =>
      intro le
      have fewer := (forward.of_error complete run).1.remaining_le
      exact absurd (Nat.le_trans le fewer) (Nat.not_le_of_lt far)

namespace Local

theorem pure (a : α) : Local (pure a : Parser α) where
  forward := .pure a
  mirrors _ _ _ s' twins _ := ⟨s', rfl, twins⟩

theorem fail (cause : Cause) : Local (fail cause : Parser α) where
  forward := fun s _ => ⟨.refl _, .refl s⟩
  mirrors _ _ _ s' _ _ := ⟨_, s', rfl⟩

theorem unexpected (expected : List Kind) : Local (unexpected expected : Parser α) := fail _

theorem bind {f : α → Parser β} (first : Local p) (rest : ∀ a, Local (f a)) : Local (p >>= f) where
  forward := first.forward.bind fun a => (rest a).forward
  mirrors x x' s s' twins := by
    have mirrors := first.mirrors _ _ _ _ twins
    cases run : p s with
    | error f t =>
        rw [run] at mirrors
        rw [bind_of_error run]
        intro le
        obtain ⟨f', t', run'⟩ := mirrors le
        exact ⟨f', t', bind_of_error run'⟩
    | ok a t =>
        rw [run] at mirrors
        rw [bind_of_ok run]
        by_cases le : x.length ≤ t.remaining
        · obtain ⟨t', run', twins'⟩ := mirrors le
          rw [bind_of_ok run']
          exact (rest a).mirrors _ _ _ _ twins'
        · have within := first.forward.of_ok twins.complete run
          exact .of_far (rest a).forward (within.complete twins.complete) (by omega) _

theorem map (f : α → β) (h : Local p) : Local (f <$> p) := by
  rw [map_eq_pure_bind]
  exact h.bind fun a => .pure _

theorem look {f : Kind → Parser α} (rest : ∀ k, Local (f k)) : Local (kind >>= f) where
  forward := fun s => (rest s.kind).forward s
  mirrors x x' s s' twins := by
    show Mirrors x x' (f s.kind s) (f s'.kind s')
    rw [← twins.kind]
    exact (rest s.kind).mirrors _ _ _ _ twins

theorem token {f : Token → Parser α} (same : ∀ t t' : Token, t.symbol = t'.symbol → f t = f t')
    (rest : ∀ t, Local (f t)) : Local (token >>= f) where
  forward := fun s => (rest s.token).forward s
  mirrors x x' s s' twins := by
    show Mirrors x x' (f s.token s) (f s'.token s')
    rw [← same _ _ twins.symbol]
    exact (rest s.token).mirrors _ _ _ _ twins

theorem advance : Local advance where
  forward := advance_step.forward
  mirrors _ _ _ s' twins le := ⟨s'.advance, rfl, twins.advance le⟩

theorem parameter : Local parameter where
  forward := parameter_step.forward
  mirrors x x' s s' twins le := by
    have ahead := twins.advance le
    refine ⟨{ s'.advance with parameters := s.parameters + 1 }, ?_, ahead.complete, ahead.complete', rfl,
      ahead.shared⟩
    rw [Parse.parameter, twins.parameters]

theorem eat {k : Kind} (live : k.isTerminal = false) : Local (eat k) where
  forward := (eat_step live).forward
  mirrors x x' s s' twins := by
    by_cases there : s.kind = k
    · rw [eat_of_kind there, eat_of_kind (twins.kind ▸ there)]
      exact fun le => ⟨_, rfl, twins.advance le⟩
    · rw [eat_of_ne there, eat_of_ne (twins.kind ▸ there)]
      exact fun _ => ⟨_, rfl, twins⟩

theorem expect {k : Kind} (live : k.isTerminal = false) : Local (expect k) where
  forward := (expect_step live).forward
  mirrors x x' s s' twins := by
    by_cases there : s.kind = k
    · rw [expect_of_kind there, expect_of_kind (twins.kind ▸ there)]
      exact fun le => ⟨_, rfl, twins.advance le⟩
    · rw [expect_of_ne there, expect_of_ne (twins.kind ▸ there)]
      exact fun _ => ⟨_, _, rfl⟩

theorem take? {read : Kind → Option α} (live : ∀ k a, read k = some a → k.isTerminal = false) :
    Local (take? read) where
  forward := (take?_step live).forward
  mirrors x x' s s' twins := by
    unfold Parse.take?
    rw [← twins.kind]
    cases read s.kind with
    | some a => exact fun le => ⟨_, rfl, twins.advance le⟩
    | none => exact fun _ => ⟨_, rfl, twins⟩

theorem identifier? : Local identifier? where
  forward := identifier?_step.forward
  mirrors x x' s s' twins := by
    unfold Parse.identifier?
    rw [← twins.kind, ← twins.value]
    split
    · exact fun le => ⟨_, rfl, twins.advance le⟩
    · exact fun _ => ⟨_, rfl, twins⟩

theorem identifier : Local identifier := by
  refine .bind identifier? fun name => ?_
  cases name with
  | some name => exact .pure name
  | none => exact .unexpected _

/-- A parser is local if it does what local parsers with any great enough count do. -/
theorem of_counts {f : Nat → Parser α} (counts : ∀ n, Local (f n))
    (enough : ∀ n s, s.Complete → s.remaining < n → f n s = p s) : Local p where
  forward := fun s complete => by
    rw [← enough (s.remaining + 1) s complete (Nat.lt_succ_self _)]
    exact (counts _).forward s complete
  mirrors x x' s s' twins := by
    rw [← enough (s.remaining + s'.remaining + 1) s twins.complete (by omega),
      ← enough (s.remaining + s'.remaining + 1) s' twins.complete' (by omega)]
    exact (counts _).mirrors _ _ _ _ twins

theorem many {item? : Parser (Option α)} (h : Local item?) (takes : Takes item? Option.isSome) :
    Local (many item?) := by
  refine .of_counts (f := manyWithin item?) (fun n => ?_) fun n s complete less =>
    manyWithin_enough takes n s.remaining complete (Nat.le_of_lt less) (Nat.le_refl _)
  induction n with
  | zero => exact .pure []
  | succ n ih =>
      refine .bind h fun item => ?_
      cases item with
      | none => exact .pure []
      | some a => exact .bind ih fun _ => .pure _

theorem after? {k : Kind} (live : k.isTerminal = false) (h : Local p) : Local (after? k p) := by
  refine .bind (.eat live) fun taken => ?_
  cases taken with
  | true => exact .bind h fun _ => .pure _
  | false => exact .pure none

theorem separated {k : Kind} (live : k.isTerminal = false) (h : Local p) : Local (separated k p) :=
  .bind h fun _ => .bind (.many (.after? live h) (after?_takes h.forward live)) fun _ => .pure _

theorem commaList (h : Local p) : Local (commaList p) := .separated rfl h

section
variable {operator : Kind → Option BinaryOp}
  (live : ∀ k op, operator k = some op → k.isTerminal = false)
include live

theorem tail? {p : Parser Expr} (h : Local p) : Local (tail? operator p) := by
  refine .bind (.take? live) fun op => ?_
  cases op with
  | some op => exact .bind h fun _ => .pure _
  | none => exact .pure none

theorem chain {p : Parser Expr} (h : Local p) : Local (chain operator p) :=
  .bind h fun _ => .bind (.many (.tail? live h) (tail?_takes h.forward live)) fun _ => .pure _

end

theorem closed (h : Local p) : Local (closed p) :=
  .bind h fun _ => .bind (.expect rfl) fun _ => .pure _

theorem enclosed (h : Local p) : Local (enclosed p) := .bind (.expect rfl) fun _ => .closed h

/-- The choice between two readings depends on no more than each of them does: the first one has failed in
front of the point that the second one comes to. -/
theorem mirrors_prefer {query : Parser α} {other : Parser β} (first : Local query) (second : Local other)
    (follows : Follows (query s) (other s)) (twins : Twins x x' s s') :
    Mirrors x x' (prefer (Sum.inl <$> query) (Sum.inr <$> other) s)
      (prefer (Sum.inl <$> query) (Sum.inr <$> other) s') := by
  have mirrors := first.mirrors _ _ _ _ twins
  have mirrors' := second.mirrors _ _ _ _ twins
  have returns := first.forward.returns twins.complete
  have returns' := first.forward.returns twins.complete'
  cases run : query s with
  | ok q t =>
      rw [run] at mirrors
      rw [prefer_of_ok (map_of_ok run)]
      intro le
      obtain ⟨t', run', twins'⟩ := mirrors le
      exact ⟨t', prefer_of_ok (map_of_ok run'), twins'⟩
  | error f t =>
      rw [run] at mirrors
      cases run₂ : other s with
      | ok b u =>
          rw [run₂] at mirrors'
          rw [prefer_of_second returns.map (map_of_error run) (map_of_ok run₂)]
          intro le
          have shallow : ¬f.TooDeep := by
            intro deep
            obtain ⟨_, _, failed, _⟩ := (follows f t run).1 deep
            cases run₂.symm.trans failed
          have further := ((follows f t run).2 shallow).2 b u run₂
          obtain ⟨f', t', run'⟩ := mirrors (by omega)
          obtain ⟨u', run₂', twins'⟩ := mirrors' le
          exact ⟨u', prefer_of_second returns'.map (map_of_error run') (map_of_ok run₂'), twins'⟩
      | error g u =>
          rw [run₂] at mirrors'
          rw [prefer_of_errors returns.map (map_of_error run) (map_of_error run₂)]
          intro le
          have both : x.length ≤ f.remaining ∧ x.length ≤ g.remaining := by
            rcases f.further_eq_or g with ⟨same, _⟩ | ⟨same, _⟩ <;> rw [same] at le <;> omega
          obtain ⟨f', t', run'⟩ := mirrors both.1
          obtain ⟨g', u', run₂'⟩ := mirrors' both.2
          exact ⟨_, _, prefer_of_errors returns'.map (map_of_error run') (map_of_error run₂')⟩

theorem parenthesized {query : Parser Statement} {other : Parser α} (first : Local query)
    (second : Local other) (follows : ∀ s, s.Complete → startsQuery s.kind = true →
      Follows (Parse.closed query s) (Parse.closed other s)) : Local (parenthesized query other) := by
  refine .bind (.expect rfl) fun _ => ⟨fun s => ?_, fun x x' s s' twins => ?_⟩
  · exact first.forward.readings second.forward s.kind s
  · show Mirrors x x' ((if startsQuery s.kind then _ else _ : Parser _) s)
      ((if startsQuery s'.kind then _ else _ : Parser _) s')
    rw [← twins.kind]
    split
    · rename_i starts
      exact mirrors_prefer first.closed second.closed (follows s twins.complete starts) twins
    · exact (second.closed.map _).mirrors _ _ _ _ twins

private theorem optionalAlias : Local Parse.optionalAlias := by
  refine .bind (.eat rfl) fun as => ?_
  cases as with
  | true => exact .map some identifier
  | false => exact identifier?

private theorem requiredAlias : Local Parse.requiredAlias := by
  refine .bind (.eat rfl) fun as => ?_
  cases as with
  | true => exact identifier
  | false =>
      refine .bind identifier? fun name => ?_
      cases name with
      | some name => exact .pure name
      | none => exact .unexpected _

private theorem identifierList : Local Parse.identifierList := by
  refine .bind (.expect rfl) fun _ => .bind (.commaList identifier) fun names =>
    .bind (.eat rfl) fun closes => ?_
  cases closes with
  | true => exact .pure names
  | false => exact .unexpected _

private theorem optionalColumns : Local Parse.optionalColumns := by
  refine .look fun k => ?_
  split
  · exact identifierList
  · exact .pure []

private theorem columnPath : Local Parse.columnPath := by
  refine .of_counts (f := columnPathWithin) (fun n => ?_) fun n s complete less =>
    columnPathWithin_enough n _ complete less (Nat.lt_succ_self _)
  induction n with
  | zero => exact .unexpected _
  | succ n ih =>
      refine .bind (.eat rfl) fun star => ?_
      cases star with
      | true => exact .pure _
      | false =>
          refine .bind identifier? fun name => ?_
          cases name with
          | none => exact .unexpected _
          | some name =>
              refine .bind (.eat rfl) fun dot => ?_
              cases dot with
              | true => exact .bind ih fun _ => .pure _
              | false => exact .pure _

section
variable {i : Inner} (inside : ∀ e, Local (i e))
include inside

theorem conditions : Local (Parse.conditions i) := .commaList (inside .condition)

private theorem arguments : Local (Parse.arguments i) := by
  refine .bind (.expect rfl) fun _ => .bind (.eat rfl) fun none_ => ?_
  cases none_ with
  | true => exact .pure []
  | false =>
      refine .bind (conditions inside) fun args => .bind (.eat rfl) fun closes => ?_
      cases closes with
      | true => exact .pure args
      | false => exact .unexpected _

private theorem columnOrCall : Local (Parse.columnOrCall i) := by
  refine .bind columnPath fun path => .look fun k => ?_
  split
  · exact .bind (arguments inside) fun _ => .pure _
  · exact .pure _

private theorem branch? : Local (Parse.branch? i) := by
  refine .bind (.eat rfl) fun when_ => ?_
  cases when_ with
  | true =>
      exact .bind (inside .condition) fun _ => .bind (.expect rfl) fun _ =>
        .bind (inside .condition) fun _ => .pure _
  | false => exact .pure none

private theorem caseEnd (operand : Option Expr) (branches : List (Expr × Expr)) :
    Local (Parse.caseEnd i operand branches) := by
  refine .bind (.after? rfl (inside .condition)) fun otherwise => .bind (.eat rfl) fun ends => ?_
  cases ends with
  | true => exact .pure _
  | false =>
      simp only [Bool.false_eq_true, if_false]
      split
      · exact .unexpected _
      · exact .unexpected _

private theorem caseExpr {r : Parser Expr} (row : Local r) : Local (Parse.caseExpr i r) := by
  have branches := Local.many (branch? inside) (branch?_takes fun e => (inside e).forward)
  have rest : ∀ operand : Option Expr, Local (Parse.many (Parse.branch? i) >>= fun branches =>
      if branches.isEmpty then Parse.unexpected [.keyword .WHEN]
      else Parse.caseEnd i operand branches) := by
    intro operand
    refine .bind branches fun branches => ?_
    split
    · exact .unexpected _
    · exact caseEnd inside operand branches
  refine .bind (.expect rfl) fun _ => .look fun k => ?_
  simp only []
  split
  · exact .bind (.pure none) rest
  · exact .bind (.map some row) rest

variable (parens : Local (Parse.parenthesized (i .query) (Parse.conditions i)))
include parens

private theorem primary {r : Parser Expr} (row : Local r) : Local (Parse.primary i r) := by
  refine .token (fun t t' same => ?_) fun t => ?_
  · obtain ⟨k, raw, place, stop⟩ := t
    obtain ⟨k', raw', place', stop'⟩ := t'
    obtain ⟨rfl, value⟩ := Symbol.mk.inj same
    cases k with
    | number | keyword k =>
        obtain rfl : raw = raw' := value
        rfl
    | string => simp only [value]
    | _ => rfl
  · split
    · exact .bind .advance fun _ => .pure _
    · exact .bind .advance fun _ => .pure _
    · exact .bind .advance fun _ => .pure _
    · exact .bind .advance fun _ => .pure _
    · exact .bind .advance fun _ => .pure _
    · exact .map _ parameter
    · exact .bind .advance fun _ => .map _ (inside .signed)
    · exact .bind .advance fun _ => .map _ (inside .signed)
    · exact caseExpr inside row
    · exact columnOrCall inside
    · exact columnOrCall inside
    · exact .map _ parens
    · split
      · exact .bind .advance fun _ => .map _ (arguments inside)
      · exact .unexpected _
    · exact .unexpected _

theorem row : Local (Parse.row i) := by
  refine .of_counts (f := rowWithin i) (fun n => ?_) fun n s complete less =>
    rowWithin_enough (fun e => (inside e).forward) n _ complete less (Nat.lt_succ_self _)
  induction n with
  | zero => exact .unexpected _
  | succ n ih =>
      exact .chain sum?_operators.live (.chain product?_operators.live (.chain power?_operators.live
        (primary inside parens ih)))

omit parens in
private theorem query : Local (Parse.enclosed (i .query)) := .enclosed (inside .query)

private theorem comparisonEnd (left : Expr) (op : BinaryOp) : Local (Parse.comparisonEnd i left op) := by
  refine .bind (.take? quantifier?_operators.live) fun quantifier => ?_
  cases quantifier with
  | some q => exact .map _ (query inside)
  | none => exact .map _ (row inside parens)

private theorem betweenEnd (negated : Bool) (operand : Expr) : Local (Parse.betweenEnd i negated operand) :=
  .bind (.expect rfl) fun _ => .bind (row inside parens) fun _ =>
    .bind (.expect rfl) fun _ => .bind (row inside parens) fun _ => .pure _

omit inside in
private theorem inEnd (negated : Bool) (operand : Expr) : Local (Parse.inEnd i negated operand) := by
  refine .bind (.expect rfl) fun _ => .bind parens fun inside => ?_
  cases inside with
  | inl query => exact .pure _
  | inr values => exact .pure _

private theorem likeEnd (negated : Bool) (operand : Expr) : Local (Parse.likeEnd i negated operand) :=
  .bind (.expect rfl) fun _ => .bind (row inside parens) fun _ =>
    .bind (.after? rfl (row inside parens)) fun _ => .pure _

private theorem negatedEnd (operand : Expr) : Local (Parse.negatedEnd i operand) := by
  refine .look fun k => ?_
  split
  · exact betweenEnd inside parens true operand
  · exact inEnd parens true operand
  · exact likeEnd inside parens true operand
  · exact .unexpected _

omit inside parens

private def truthEnd (negated : Bool) (operand : Expr) : Parser Expr := do
  match ← Parse.take? truthValue? with
  | some value => Pure.pure (.is value negated operand)
  | none => Parse.unexpected (afterIs negated)

private def testEnd (operand : Expr) : Parser Expr := do
  if ← Parse.eat (.keyword .IS) then
    let negated ← Parse.eat (.keyword .NOT)
    truthEnd negated operand
  else Pure.pure operand

/-- What follows the row of a truth test up to its end, where that starts with `IS`. A test for `NULL` may
stand here, and nothing is read twice. -/
private def openTestEnd (operand : Expr) : Parser Expr := do
  Parse.expect (.keyword .IS)
  let negated ← Parse.eat (.keyword .NOT)
  if ← Parse.eat (.keyword .NULL) then testEnd (.is .null negated operand)
  else truthEnd negated operand

/-- The rest of a predicate after a row, where that does not start with `IS`. -/
private def predicateTail (i : Inner) (operand : Expr) : Parser Expr := do
  match ← Parse.kind with
  | .keyword .NOT => do
      Parse.advance
      Parse.negatedEnd i operand
  | .keyword .BETWEEN => Parse.betweenEnd i false operand
  | .keyword .IN => Parse.inEnd i false operand
  | .keyword .LIKE => Parse.likeEnd i false operand
  | _ => Pure.pure operand

private theorem predicateEnd_then_testEnd (operand : Expr) :
    (predicateEnd i operand >>= testEnd) = (do
      let k ← Parse.kind
      if k = .keyword .IS then openTestEnd operand else predicateTail i operand >>= testEnd) := by
  funext s
  have looked : ∀ f : Kind → Parser Expr, (Parse.kind >>= f) s = f s.kind s := fun _ => rfl
  rw [looked]
  by_cases is : s.kind = .keyword .IS
  · by_cases not : s.advance.kind = .keyword .NOT
    · by_cases null : s.advance.advance.kind = .keyword .NULL <;>
        simp [predicateEnd, openTestEnd, testEnd, Bind.bind, EStateM.bind, isNull?_run, is, not, null,
          Parse.eat, Parse.expect, Parse.kind, Pure.pure, EStateM.pure]
    · by_cases null : s.advance.kind = .keyword .NULL <;>
        simp [predicateEnd, openTestEnd, testEnd, Bind.bind, EStateM.bind, isNull?_run, is, not, null,
          Parse.eat, Parse.expect, Parse.kind, Pure.pure, EStateM.pure]
  · have none_ : isNull? s = .ok none s := by rw [isNull?_run, if_neg is]
    rw [if_neg is, predicateEnd, bind_assoc, bind_of_ok none_]
    rfl

private theorem truthEnd_local (negated : Bool) (operand : Expr) : Local (truthEnd negated operand) := by
  refine .bind (.take? truthValue?_live) fun value => ?_
  cases value with
  | some value => exact .pure _
  | none => exact .unexpected _

private theorem testEnd_local (operand : Expr) : Local (testEnd operand) := by
  refine .bind (.eat rfl) fun is => ?_
  cases is with
  | true => exact .bind (.eat rfl) fun negated => truthEnd_local negated operand
  | false => exact .pure operand

private theorem openTestEnd_local (operand : Expr) : Local (openTestEnd operand) := by
  refine .bind (.expect rfl) fun _ => .bind (.eat rfl) fun negated => .bind (.eat rfl) fun null => ?_
  cases null with
  | true => exact testEnd_local _
  | false => exact truthEnd_local negated operand

include inside parens

private theorem predicateTail_local (operand : Expr) : Local (predicateTail i operand) := by
  refine .look fun k => ?_
  split
  · exact .bind .advance fun _ => negatedEnd inside parens operand
  · exact betweenEnd inside parens false operand
  · exact inEnd parens false operand
  · exact likeEnd inside parens false operand
  · exact .pure operand

private theorem predicateEnd_local (operand : Expr) : Local (predicateEnd i operand >>= testEnd) := by
  rw [predicateEnd_then_testEnd]
  refine .look fun k => ?_
  split
  · exact openTestEnd_local operand
  · exact .bind (predicateTail_local inside parens operand) testEnd_local

/-- The test for `NULL` looks ahead, and gives up at a token that no truth test takes either. -/
theorem truthTest : Local (truthTest i) := by
  have ends : Parse.truthTest i = Parse.predicate i >>= testEnd := rfl
  rw [ends, predicate, bind_assoc]
  refine .bind (.eat rfl) fun exists_ => ?_
  cases exists_ with
  | true => exact .bind (.map _ (query inside)) testEnd_local
  | false =>
      simp only [Bool.false_eq_true, if_false, bind_assoc]
      refine .look fun k => ?_
      split
      · rw [bind_assoc]
        refine .bind (row inside parens) fun left => ?_
        rw [bind_assoc]
        refine .bind (.take? comparison?_operators.live) fun comparison => ?_
        cases comparison with
        | some op => exact .bind (comparisonEnd inside parens left op) testEnd_local
        | none => exact predicateEnd_local inside parens left
      · exact .bind (.unexpected _) testEnd_local

private theorem negation : Local (Parse.negation i) := by
  refine .bind (.eat rfl) fun not => ?_
  cases not with
  | true => exact .map _ (inside .negated)
  | false => exact truthTest inside parens

private theorem condition : Local (Parse.condition i) :=
  .chain or?_operators.live (.chain and?_operators.live (negation inside parens))

section
omit inside parens

private theorem joinSide? : Local Parse.joinSide? := by
  refine .look fun k => ?_
  split
  · exact .pure _
  · exact .bind .advance fun _ => .pure _
  · exact .bind .advance fun _ => .bind (.eat rfl) fun _ => .pure _
  · exact .bind .advance fun _ => .bind (.eat rfl) fun _ => .pure _
  · exact .bind .advance fun _ => .bind (.eat rfl) fun _ => .pure _
  · exact .pure none

private theorem joinKind? : Local Parse.joinKind? := by
  refine .bind (.eat rfl) fun cross => ?_
  cases cross with
  | true => exact .bind (.expect rfl) fun _ => .pure _
  | false =>
      refine .bind (.eat rfl) fun natural => .bind joinSide? fun side => ?_
      cases side with
      | none =>
          cases natural with
          | true => exact .unexpected _
          | false => exact .pure none
      | some side =>
          refine .bind (.eat rfl) fun join => ?_
          cases join with
          | true => exact .pure _
          | false => exact .unexpected _

end

section
omit parens
variable (tables : Local (Parse.parenthesized (i .query) (i .table)))
include tables

omit inside in
private theorem tablePrimary : Local (Parse.tablePrimary i) := by
  refine .look fun k => ?_
  split
  · exact .bind (.separated rfl identifier) fun _ => .bind optionalAlias fun _ => .pure _
  · refine .bind tables fun inside => ?_
    cases inside with
    | inl query => exact .bind requiredAlias fun _ => .bind optionalColumns fun _ => .pure _
    | inr table => exact .pure table
  · exact .unexpected _

omit tables in
private theorem joinCondition (kind : JoinKind) : Local (Parse.joinCondition i kind) := by
  unfold Parse.joinCondition
  split
  · exact .bind (.expect rfl) fun _ => .map some (inside .condition)
  · refine .look fun k => ?_
    split
    · exact .fail _
    · exact .pure none

private theorem join? : Local (Parse.join? i) := by
  refine .bind joinKind? fun kind => ?_
  cases kind with
  | none => exact .pure none
  | some kind =>
      exact .bind (tablePrimary tables) fun _ => .bind (joinCondition inside kind) fun _ => .pure _

private theorem table : Local (Parse.table i) :=
  .bind (tablePrimary tables) fun _ =>
    .bind (.many (join? inside tables) (join?_takes fun e => (inside e).forward)) fun _ => .pure _

end

section
omit inside parens

private theorem setQuantifier : Local Parse.setQuantifier :=
  .bind (.take? setQuantifier?_operators.live) fun _ => .pure _

private theorem setChain {operator : Kind → Option SetOp} {p : Parser Body}
    (live : ∀ k op, operator k = some op → k.isTerminal = false) (h : Local p) :
    Local (setChain operator p) := by
  have tail : Local (setTail? operator p) := by
    refine .bind (.take? live) fun op => ?_
    cases op with
    | none => exact .pure none
    | some op => exact .bind setQuantifier fun _ => .bind h fun _ => .pure _
  exact .bind h fun _ => .bind (.many tail (setTail?_takes h.forward live)) fun _ => .pure _

end

omit parens in
private theorem tables : Local (Parse.tables i) := by
  refine .bind (.eat rfl) fun from_ => ?_
  cases from_ with
  | true => exact .commaList (inside .table)
  | false => exact .pure []

omit parens in
private theorem namedQuery : Local (Parse.namedQuery i) := by
  refine .bind identifier fun name => .bind optionalColumns fun columns => .bind (.eat rfl) fun as => ?_
  cases as with
  | true => exact .bind (query inside) fun _ => .pure _
  | false =>
      simp only [Bool.false_eq_true, if_false]
      split
      · exact .unexpected _
      · exact .unexpected _

omit parens in
private theorem withClause? : Local (Parse.withClause? i) := by
  refine .bind (.eat rfl) fun with_ => ?_
  cases with_ with
  | true => exact .bind (.eat rfl) fun _ => .bind (.commaList (namedQuery inside)) fun _ => .pure _
  | false => exact .pure none

private theorem orderItem : Local (Parse.orderItem i) :=
  .bind (row inside parens) fun _ => .bind (.take? direction?_operators.live) fun _ => .pure _

private theorem projection : Local (Parse.projection i) :=
  .bind (row inside parens) fun _ => .bind optionalAlias fun _ => .pure _

private theorem grouping? : Local (Parse.grouping? i) := by
  refine .bind (.eat rfl) fun group => ?_
  cases group with
  | true =>
      exact .bind (.expect rfl) fun _ => .bind setQuantifier fun _ =>
        .bind (.commaList (row inside parens)) fun _ => .pure _
  | false => exact .pure none

private theorem selectBlock : Local (Parse.selectBlock i) :=
  .bind (.expect rfl) fun _ => .bind setQuantifier fun _ =>
    .bind (.commaList (projection inside parens)) fun _ => .bind (tables inside) fun _ =>
    .bind (.after? rfl (inside .condition)) fun _ => .bind (grouping? inside parens) fun _ =>
    .bind (.after? rfl (inside .condition)) fun _ => .pure _

private theorem bodyPrimary : Local (Parse.bodyPrimary i) := by
  refine .look fun k => ?_
  split
  · exact .map _ (selectBlock inside parens)
  · exact .enclosed (inside .body)
  · exact .unexpected _

private theorem body : Local (Parse.body i) :=
  setChain unionOrExcept?_operators.live (setChain intersect?_operators.live (bodyPrimary inside parens))

private theorem orderBy : Local (Parse.orderBy i) := by
  refine .bind (.eat rfl) fun order => ?_
  cases order with
  | true => exact .bind (.expect rfl) fun _ => .commaList (orderItem inside parens)
  | false => exact .pure []

private theorem wholeQuery : Local (Parse.query i) :=
  .bind (withClause? inside) fun _ => .bind (body inside parens) fun _ =>
    .bind (orderBy inside parens) fun _ => .pure _

private theorem rule (tables : Local (Parse.parenthesized (i .query) (i .table))) (e : Entry) :
    Local (Parse.rule i e) := by
  cases e with
  | query => exact wholeQuery inside parens
  | body => exact body inside parens
  | condition => exact condition inside parens
  | negated => exact negation inside parens
  | signed => exact primary inside parens (row inside parens)
  | table => exact table inside tables

end

end Local

end

theorem levelled_local (limit levels : Nat) (e : Entry) : Local (levelled limit levels e) := by
  induction levels generalizing e with
  | zero => exact .fail _
  | succ levels ih =>
      exact .rule ih (.parenthesized (ih .query) (.conditions ih) (follows limit levels .values))
        (.parenthesized (ih .query) (ih .table) (follows limit levels .table)) e

end SelectSyntax.Parse
