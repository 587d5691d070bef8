import SelectSyntax.Proofs.Progress

/-!
The two readings of a parenthesis compared. A query and what else may stand in a parenthesis have only
opening parentheses in common before a `SELECT` decides between them, and both count the same levels on
the way there. So neither reading finds a construct too deep where the other one would go on.
-/

set_option autoImplicit false
set_option relaxedAutoImplicit false

namespace SelectSyntax.Parse

open Token (Kind)
open SyntaxTree (BinaryOp Body Expr SetOp Statement TableRef)

/-- What may stand in a parenthesis besides a query. -/
inductive Other where
  | values
  | table
  deriving DecidableEq, Repr

namespace Other

abbrev Result : Other → Type
  | .values => List Expr
  | .table => TableRef

/-- The parser of it, over the parsers of the constructs one level further in. -/
def parser (inner : Inner) : (o : Other) → Parser o.Result
  | .values => conditions inner
  | .table => inner .table

end Other

/-- A parser that takes nothing where the kind of the current token is one of some kinds. -/
def HaltsOn {α : Type} (kinds : Kind → Prop) (p : Parser α) : Prop :=
  ∀ s : State, kinds s.kind →
    (∃ a, p s = .ok a s) ∨ ∃ f, p s = .error f s ∧ f.cursor = s.cursor ∧ ¬f.TooDeep

/-- A parser that from a state reads first what another one reads, and goes on from there. -/
def Leads {α β : Type} (kinds : Kind → Prop) (first : Parser β) (p : Parser α) (s : State) : Prop :=
  ∃ rest : β → Parser α, p s = (first >>= rest) s ∧ ∀ b, Guarded 1 (rest b) ∧ HaltsOn kinds (rest b)

section
variable {α β γ : Type} {kinds : Kind → Prop} {first : Parser β} {p q : Parser α} {s : State}

theorem HaltsOn.pure (a : α) : HaltsOn kinds (pure a : Parser α) :=
  fun _ _ => Or.inl ⟨a, rfl⟩

theorem HaltsOn.bind {f : α → Parser γ} (h : HaltsOn kinds p) (rest : ∀ a, HaltsOn kinds (f a)) :
    HaltsOn kinds (p >>= f) := by
  intro s halt
  rcases h s halt with ⟨a, run⟩ | ⟨e, run, same, shallow⟩
  · rw [bind_of_ok run]
    exact rest a s halt
  · exact Or.inr ⟨e, bind_of_error run, same, shallow⟩

theorem HaltsOn.many {item : Parser (Option α)}
    (none : ∀ s : State, kinds s.kind → item s = .ok none s) : HaltsOn kinds (many item) := by
  intro s halt
  refine Or.inl ⟨[], ?_⟩
  unfold Parse.many
  cases s.cursor.remaining with
  | zero => rfl
  | succ n =>
      rw [manyWithin, bind_of_ok (none s halt)]
      rfl

theorem Leads.of_eq (same : p s = q s) (h : Leads kinds first q s) : Leads kinds first p s := by
  obtain ⟨rest, run, guarded⟩ := h
  exact ⟨rest, same.trans run, guarded⟩

theorem Leads.map (f : β → α) : Leads kinds first (f <$> first) s := by
  rw [map_eq_pure_bind]
  exact ⟨_, rfl, fun b => ⟨.pure _, .pure _⟩⟩

theorem Leads.bind {f : α → Parser γ} (h : Leads kinds first p s)
    (rest : ∀ a, Guarded 1 (f a) ∧ HaltsOn kinds (f a)) : Leads kinds first (p >>= f) s := by
  obtain ⟨middle, run, guarded⟩ := h
  refine ⟨fun b => middle b >>= f, ?_, fun b => ⟨?_, ?_⟩⟩
  · have both : (p >>= f) s = ((first >>= middle) >>= f) s := by
      simp only [Bind.bind, EStateM.bind] at run ⊢
      rw [run]
    rw [both, bind_assoc]
  · exact .bind (guarded b).1 fun a => (rest a).1
  · exact (guarded b).2.bind fun a => (rest a).2

theorem Leads.closed (h : Leads kinds first p s) :
    (∀ e t, first s = .error e t → closed p s = .error e t) ∧
      ∀ b t, first s = .ok b t →
        ∃ q : Parser α, closed p s = Parse.closed q t ∧ Guarded 1 q ∧ HaltsOn kinds q := by
  obtain ⟨rest, run, guarded⟩ := h
  refine ⟨fun e t read => ?_, fun b t read => ⟨rest b, ?_, guarded b⟩⟩
  · rw [bind_of_error read] at run
    rw [Parse.closed, bind_of_error run]
  · rw [bind_of_ok read] at run
    simp only [Parse.closed, Bind.bind, EStateM.bind, run]

end

/-- The tokens by which a query goes on after the parenthesis that it starts with. -/
inductive GoesOn : Kind → Prop
  | union : GoesOn (.keyword .UNION)
  | except : GoesOn (.keyword .EXCEPT)
  | intersect : GoesOn (.keyword .INTERSECT)
  | order : GoesOn (.keyword .ORDER)

theorem GoesOn.eq_or {k : Kind} (h : GoesOn k) :
    k = .keyword .UNION ∨ k = .keyword .EXCEPT ∨ k = .keyword .INTERSECT ∨ k = .keyword .ORDER := by
  cases h <;> simp

theorem chain_leads {operator : Kind → Option BinaryOp} {β : Type} {first : Parser β}
    {p : Parser Expr} {s : State} (live : ∀ k op, operator k = some op → k.isTerminal = false)
    (none : ∀ k, GoesOn k → operator k = none) (guarded : Guarded 1 p)
    (h : Leads GoesOn first p s) : Leads GoesOn first (chain operator p) s := by
  refine h.bind fun left => ⟨.bind (.many (.tail? live guarded)) fun _ => .pure _,
    HaltsOn.bind (.many fun t halt => ?_) fun _ => .pure _⟩
  have stays : take? operator t = .ok Option.none t := by simp [take?, none _ halt]
  rw [tail?, bind_of_ok stays]
  rfl

section
variable {i : Inner} {s : State} (opens : s.kind = .leftParen)
include opens

theorem primary_leads (r : Parser Expr) :
    Leads GoesOn (parenthesized (i .query) (conditions i)) (primary i r) s := by
  refine Leads.of_eq ?_ (.map ofParenthesis)
  have kind : s.token.kind = .leftParen := opens
  simp [primary, bind, EStateM.bind, token, kind]

variable (inside : ∀ e, DeepOnlyAfter 0 (i e))
include inside

theorem row_leads : Leads GoesOn (parenthesized (i .query) (conditions i)) (row i) s := by
  have parens := guarded_parens inside
  have operands := Alike.rowWithin inside parens s.cursor.remaining
  have primaries : Guarded 1 (primary i (rowWithin i s.cursor.remaining)) :=
    .primary inside parens operands.weaken
  refine Leads.of_eq (q := sum i (rowWithin i s.cursor.remaining)) rfl ?_
  have powers := chain_leads power?_operators.live (by rintro _ ⟨⟩ <;> rfl) primaries
    (primary_leads opens _)
  have products := chain_leads product?_operators.live (by rintro _ ⟨⟩ <;> rfl)
    (.chain power?_operators.live primaries) powers
  exact chain_leads sum?_operators.live (by rintro _ ⟨⟩ <;> rfl)
    (.chain product?_operators.live (.chain power?_operators.live primaries)) products

theorem predicate_leads :
    Leads GoesOn (parenthesized (i .query) (conditions i)) (predicate i) s := by
  have parens := guarded_parens inside
  have start : s.kind ∈ rowStart := by simp [opens, rowStart]
  refine Leads.of_eq (predicate_run start) ((row_leads opens inside).bind fun left =>
    ⟨Alike.predicateRest inside parens left, fun t halt => Or.inl ⟨left, ?_⟩⟩)
  rcases halt.eq_or with h | h | h | h <;>
    simp [bind, EStateM.bind, take?, BinaryOp.comparison?, predicateEnd, isNull?_run, kind, h, pure,
      EStateM.pure]

theorem condition_leads :
    Leads GoesOn (parenthesized (i .query) (conditions i)) (condition i) s := by
  have parens := guarded_parens inside
  have tests : Leads GoesOn (parenthesized (i .query) (conditions i)) (truthTest i) s := by
    refine (predicate_leads opens inside).bind fun operand => ⟨?_, fun t halt => Or.inl ⟨operand, ?_⟩⟩
    · exact Alike.truthTestRest operand
    · rcases halt.eq_or with h | h | h | h <;>
        simp [bind, EStateM.bind, eat, h, pure, EStateM.pure]
  have same : negation i s = truthTest i s := by
    rw [negation, bind_of_ok (eat_of_ne (by rw [opens]; simp))]
    rfl
  have negations := Alike.negation inside parens
  exact chain_leads or?_operators.live (by rintro _ ⟨⟩ <;> rfl) (.chain and?_operators.live negations)
    (chain_leads and?_operators.live (by rintro _ ⟨⟩ <;> rfl) negations (.of_eq same tests))

end

/-- With a level left, what else may stand in a parenthesis starts, where a parenthesis opens, with
the two readings of that parenthesis. -/
theorem other_leads (limit levels : Nat) (o : Other) {s : State} (opens : s.kind = .leftParen) :
    Leads GoesOn (parenthesized (levelled limit levels .query) (o.parser (levelled limit levels)))
      (o.parser (levelled limit (levels + 1))) s := by
  have inside : ∀ n e, DeepOnlyAfter 0 (levelled limit n e) := fun n e =>
    (levelled_forward limit n e).deepOnlyAfter
  cases o with
  | values =>
      refine (condition_leads opens (inside levels)).bind fun first => ⟨?_, ?_⟩
      · exact .bind (.many (.after? rfl (.held (inside _ .condition)))) fun _ => .pure _
      · refine HaltsOn.bind (.many fun t halt => ?_) fun _ => .pure _
        rw [after?, bind_of_ok (eat_of_ne (by rcases halt.eq_or with h | h | h | h <;> simp [h]))]
        rfl
  | table =>
      have tables := guarded_tables (inside levels)
      have primaries : Leads GoesOn (parenthesized (levelled limit levels .query)
          (levelled limit levels .table)) (tablePrimary (levelled limit levels)) s := by
        refine Leads.of_eq (q := tableInParens (levelled limit levels)) ?_ ⟨_, rfl, fun b => ⟨?_, ?_⟩⟩
        · simp [tablePrimary, bind, EStateM.bind, kind, opens]
        · exact Alike.tableInParensRest b
        · cases b with
          | inl query =>
              refine fun t halt => Or.inr ⟨⟨.unexpected [.keyword .AS, .identifier], t.cursor⟩, ?_,
                rfl, by rintro ⟨_, h⟩; cases h⟩
              rcases halt.eq_or with h | h | h | h <;>
                simp [bind, EStateM.bind, requiredAlias, eat, identifier?, unexpected, fail, h]
          | inr table => exact .pure table
      refine primaries.bind fun first => ⟨.bind (.many (.join? (inside _) tables)) fun _ => .pure _,
        HaltsOn.bind (.many fun t halt => ?_) fun _ => .pure _⟩
      rcases halt.eq_or with h | h | h | h <;>
        simp [bind, EStateM.bind, join?, joinKind?, joinSide?, eat, kind, h, pure, EStateM.pure]

section
variable {i : Inner} {s t : State}

/-- What follows the body of a query without `WITH`. -/
def afterBody (i : Inner) (b : Body) : Parser Statement := do
  let items ← orderBy i
  pure ⟨none, b, items⟩

theorem orderBy_of_ne (h : s.kind ≠ .keyword .ORDER) : orderBy i s = .ok [] s := by
  rw [orderBy, bind_of_ok (eat_of_ne h)]
  rfl

private theorem withClause?_of_ne (h : s.kind ≠ .keyword .WITH) :
    withClause? i s = .ok none s := by
  rw [withClause?, bind_of_ok (eat_of_ne h)]
  rfl

theorem query_of_ne (i : Inner) (s : State) (start : s.kind ≠ .keyword .WITH) : query i s = (body i >>= afterBody i) s := by
  rw [query, bind_of_ok (withClause?_of_ne start)]
  rfl

theorem body_of_ne (i : Inner) (s : State) (select : s.kind ≠ .keyword .SELECT) (opens : s.kind ≠ .leftParen) :
    body i s = .error ⟨.unexpected [.keyword .SELECT, .leftParen], s.cursor⟩ s := by
  have primary : bodyPrimary i s =
      .error ⟨.unexpected [.keyword .SELECT, .leftParen], s.cursor⟩ s := by
    simp only [bodyPrimary, bind, EStateM.bind, kind]
    rfl
  rw [body, setChain, setChain, bind_of_error (bind_of_error primary)]

private theorem body_start {b : Body} (run : body i s = .ok b t) :
    s.kind = .keyword .SELECT ∨ s.kind = .leftParen := by
  by_cases select : s.kind = .keyword .SELECT
  · exact Or.inl select
  · by_cases opens : s.kind = .leftParen
    · exact Or.inr opens
    · rw [body_of_ne i s select opens] at run
      cases run

theorem setChain_leads {operator : Kind → Option SetOp} {first p : Parser Body}
    (live : ∀ k op, operator k = some op → k.isTerminal = false)
    (goesOn : ∀ k op, operator k = some op → GoesOn k) (guarded : Guarded 1 p)
    (h : Leads (fun k => ¬GoesOn k) first p s) :
    Leads (fun k => ¬GoesOn k) first (setChain operator p) s := by
  refine h.bind fun left => ⟨.bind (.many (.setTail? live guarded)) fun _ => .pure _,
    HaltsOn.bind (.many fun t halt => ?_) fun _ => .pure _⟩
  have none : operator t.kind = none := by
    cases found : operator t.kind with
    | none => rfl
    | some op => exact absurd (goesOn _ op found) halt
  have stays : take? operator t = .ok Option.none t := by simp [take?, none]
  rw [setTail?, bind_of_ok stays]
  rfl

/-- A query body that starts with a parenthesis starts with a query body in parentheses, and goes on
only after a set operator. -/
theorem body_leads (inside : ∀ e, DeepOnlyAfter 0 (i e)) (opens : s.kind = .leftParen) :
    Leads (fun k => ¬GoesOn k) (enclosed (i .body)) (body i) s := by
  have blocks := Alike.bodyPrimary inside (guarded_parens inside)
  have primary : Leads (fun k => ¬GoesOn k) (enclosed (i .body)) (bodyPrimary i) s := by
    refine Leads.of_eq (q := enclosed (i .body)) ?_
      ⟨pure, by rw [bind_pure], fun b => ⟨.pure b, .pure b⟩⟩
    simp [bodyPrimary, bind, EStateM.bind, kind, opens]
  have intersects : ∀ k op, intersect? k = some op → GoesOn k := by
    intro k op found
    unfold intersect? at found
    split at found
    · exact .intersect
    · cases found
  have unites : ∀ k op, unionOrExcept? k = some op → GoesOn k := by
    intro k op found
    unfold unionOrExcept? at found
    split at found
    · exact .union
    · exact .except
    · cases found
  exact setChain_leads unionOrExcept?_operators.live unites (.setChain intersect?_operators.live blocks)
    (setChain_leads intersect?_operators.live intersects blocks primary)

end

/-- How the outcome of the other reading of a parenthesis stands to that of the query reading. Where
the query reading fails because a construct is too deep, the other one fails for that cause too, or
fails before that construct. Where the query reading fails for another cause, the other one comes to
its end, or to a construct that is too deep, only further on. -/
def Follows {α β : Type} (query : EStateM.Result Failure State α)
    (other : EStateM.Result Failure State β) : Prop :=
  ∀ f t, query = .error f t →
    (f.TooDeep → ∃ g u, other = .error g u ∧ (g.TooDeep ∨ f.remaining ≤ g.remaining)) ∧
      (¬f.TooDeep → (∀ g u, other = .error g u → g.TooDeep → g.remaining < f.remaining) ∧
        ∀ b u, other = .ok b u → u.remaining < f.remaining)

theorem closed_remaining {α : Type} {p : Parser α} (h : Forward p) {s t : State} {a : α}
    (complete : s.Complete) (run : closed p s = .ok a t) : t.remaining < s.remaining := by
  obtain ⟨u, read, closes, rfl⟩ := closed_eq_ok.mp run
  have within := h.of_ok complete read
  have less := (within.complete complete).remaining_advance (by rw [closes]; rfl)
  exact Nat.lt_of_lt_of_le less within.remaining_le

private def Past {α : Type} (bound : Nat) (other : EStateM.Result Failure State α) : Prop :=
  (∀ g u, other = .error g u → g.TooDeep → g.remaining < bound) ∧
    ∀ a u, other = .ok a u → u.remaining < bound

private theorem follows_of_past {α β : Type} {query : EStateM.Result Failure State α}
    {other : EStateM.Result Failure State β} {f : Failure} {t : State} (run : query = .error f t)
    (shallow : ¬f.TooDeep) (past : Past f.remaining other) : Follows query other := by
  rintro f' t' run'
  cases run.symm.trans run'
  exact ⟨fun deep => absurd deep shallow, fun _ => past⟩

private theorem past_closed {α : Type} {p : Parser α} (h : DeepOnlyAfter 1 p) {s : State}
    (complete : s.Complete) : Past s.remaining (closed p s) :=
  ⟨fun g u run deep => h.closed.2 s complete g u run deep,
    fun _ _ run => closed_remaining h.1 complete run⟩

private theorem Past.mono {α : Type} {less more : Nat} {other : EStateM.Result Failure State α}
    (h : Past less other) (le : less ≤ more) : Past more other :=
  ⟨fun g u run deep => Nat.lt_of_lt_of_le (h.1 g u run deep) le,
    fun a u run => Nat.lt_of_lt_of_le (h.2 a u run) le⟩

private theorem HaltsOn.closed_error {α : Type} {kinds : Kind → Prop} {p : Parser α}
    (h : HaltsOn kinds p) {s t : State} (halt : kinds s.kind) {f : Failure}
    (run : closed p s = .error f t) : f.cursor = s.cursor ∧ ¬f.TooDeep := by
  rcases h s halt with ⟨a, first⟩ | ⟨g, first, same, shallow⟩
  · by_cases closes : s.kind = .rightParen
    · cases run.symm.trans (closed_of_kind first closes)
    · cases run.symm.trans (closed_of_ne first closes)
      exact ⟨rfl, by rintro ⟨_, h⟩; cases h⟩
  · cases run.symm.trans (closed_of_error first)
    exact ⟨same, shallow⟩

private theorem HaltsOn.closed_of_goesOn {α : Type} {p : Parser α} (h : HaltsOn GoesOn p) {s : State}
    (halt : GoesOn s.kind) : ∃ f t, closed p s = .error f t := by
  rcases h s halt with ⟨a, first⟩ | ⟨g, first, _⟩
  · have open_ : s.kind ≠ .rightParen := by rcases halt.eq_or with h | h | h | h <;> simp [h]
    exact ⟨_, _, closed_of_ne first open_⟩
  · exact ⟨_, _, closed_of_error first⟩

section
variable (limit levels : Nat) (o : Other)

theorem other_deepOnlyAfter : DeepOnlyAfter levels (o.parser (levelled limit levels)) := by
  cases o with
  | values => exact conditions_deepOnlyAfter (levelled_deepOnlyAfter limit levels)
  | table => exact levelled_deepOnlyAfter limit levels .table

private theorem other_past {s u : State} (complete : s.Complete) (opens : s.kind = .leftParen)
    {x : Statement ⊕ o.Result}
    (run : parenthesized (levelled limit levels .query) (o.parser (levelled limit levels)) s = .ok x u) :
    Past u.remaining (closed (o.parser (levelled limit (levels + 1))) s) := by
  obtain ⟨p, same, guarded, _⟩ := (other_leads limit levels o opens).closed.2 x u run
  have forward := (levelled_forward limit levels .query).parenthesized
    (other_deepOnlyAfter limit levels o).1
  rw [same]
  exact past_closed guarded.deepOnlyAfter ((forward.of_ok complete run).complete complete)

private theorem query_returns {s : State} (complete : s.Complete) :
    Returns (closed (levelled limit levels .query)) s.advance :=
  (levelled_forward limit levels .query).returns_closed complete

/-- The two readings one level further in, and what becomes of the other reading around them. -/
private theorem other_of_readings {s : State} (complete : s.Complete) (opens : s.kind = .leftParen)
    (starts : startsQuery s.advance.kind = true) {bound : Nat}
    (ok : ∀ q u, closed (levelled limit levels .query) s.advance = .ok q u → u.remaining ≤ bound)
    (error : ∀ f u, closed (levelled limit levels .query) s.advance = .error f u →
      f.remaining ≤ bound ∧ (f.TooDeep → f.remaining < bound))
    (follows : Follows (closed (levelled limit levels .query) s.advance)
      (closed (o.parser (levelled limit levels)) s.advance)) :
    Past bound (closed (o.parser (levelled limit (levels + 1))) s) := by
  cases first : closed (levelled limit levels .query) s.advance with
  | ok q u =>
      have past := other_past limit levels o complete opens (parenthesized_of_query opens starts first)
      exact past.mono (ok q u first)
  | error f t =>
      have near := error f t first
      have compared := follows f t first
      cases second : closed (o.parser (levelled limit levels)) s.advance with
      | ok a u =>
          have past := other_past limit levels o complete opens
            (parenthesized_of_other (query_returns limit levels complete) opens starts first second)
          have shallow : ¬f.TooDeep := fun deep => by
            obtain ⟨g, v, run, _⟩ := compared.1 deep
            cases second.symm.trans run
          have less := (compared.2 shallow).2 a u second
          exact past.mono (by omega)
      | error g u =>
          have whole := (other_leads limit levels o opens).closed.1 _ u
            (parenthesized_of_errors (query_returns limit levels complete) opens starts first second)
          rw [whole]
          refine ⟨fun h v run deep => ?_, fun a v run => by cases run⟩
          cases run
          rcases f.further_eq_or g with ⟨same, _⟩ | ⟨same, less⟩ <;> rw [same] at deep ⊢
          · exact near.2 deep
          · omega

private theorem other_past_first {s : State} (complete : s.Complete) (opens : s.kind = .leftParen) :
    Past s.advance.remaining (closed (o.parser (levelled limit (levels + 2))) s) := by
  have query := levelled_deepOnlyAfter limit (levels + 1) .query
  have other := other_deepOnlyAfter limit (levels + 1) o
  have inside := s.advance_within.complete complete
  have step := complete.remaining_succ (by rw [opens]; rfl)
  cases run : parenthesized (levelled limit (levels + 1) .query)
      (o.parser (levelled limit (levels + 1))) s with
  | error g u =>
      rw [(other_leads limit (levels + 1) o opens).closed.1 g u run]
      refine ⟨fun h v same deep => ?_, fun a v run => by cases run⟩
      cases same
      have far := (query.parenthesized other).2 s complete g u run deep
      omega
  | ok x u =>
      refine (other_past limit (levels + 1) o complete opens run).mono (Nat.le_of_lt ?_)
      rcases (parenthesized_eq_ok (query.1.returns_closed complete) run).2 with ⟨q, _, _, first⟩ | ⟨b, _, second, _⟩
      · exact closed_remaining query.1 inside first
      · exact closed_remaining other.1 inside second

private theorem other_of_deep_body {s : State} (complete : s.Complete) (opens : s.kind = .leftParen)
    (starts : startsQuery s.advance.kind = true) {f : Failure} {t : State} (deep : f.TooDeep)
    (first : closed (levelled limit levels .query) s.advance = .error f t)
    (follows : Follows (closed (levelled limit levels .query) s.advance)
      (closed (o.parser (levelled limit levels)) s.advance)) :
    ∃ g u, closed (o.parser (levelled limit (levels + 1))) s = .error g u ∧ g.TooDeep := by
  obtain ⟨g, u, second, near⟩ := (follows f t first).1 deep
  refine ⟨_, u, (other_leads limit levels o opens).closed.1 _ u
    (parenthesized_of_errors (query_returns limit levels complete) opens starts first second), ?_⟩
  rcases f.further_eq_or g with ⟨same, _⟩ | ⟨same, less⟩ <;> rw [same]
  · exact deep
  · exact near.resolve_right (by omega)

end

section
variable {limit levels : Nat} {o : Other} {s : State}

private theorem closed_query_zero :
    closed (levelled limit 0 .query) s = .error ⟨.tooDeep limit, s.cursor⟩ s := rfl

private theorem closed_other_zero (limit : Nat) (o : Other) :
    closed (o.parser (levelled limit 0)) s = .error ⟨.tooDeep limit, s.cursor⟩ s := by
  cases o <;> rfl

private theorem other_of_keyword (limit levels : Nat) (o : Other)
    (start : s.kind = .keyword .SELECT ∨ s.kind = .keyword .WITH) :
    ∃ f, o.parser (levelled limit (levels + 1)) s = .error f s ∧ f.cursor = s.cursor ∧
      ¬f.TooDeep := by
  cases o with
  | values =>
      refine ⟨⟨.unexpected conditionStart, s.cursor⟩, ?_, rfl, by rintro ⟨_, h⟩; cases h⟩
      have none : predicate (levelled limit levels) s =
          .error ⟨.unexpected conditionStart, s.cursor⟩ s := by
        rcases start with h | h <;>
          simp [predicate, bind, EStateM.bind, eat, kind, h, rowStart, unexpected, fail]
      have first : negation (levelled limit levels) s =
          .error ⟨.unexpected conditionStart, s.cursor⟩ s := by
        rw [negation, bind_of_ok (eat_of_ne (by rcases start with h | h <;> simp [h]))]
        exact bind_of_error none
      exact bind_of_error (bind_of_error (bind_of_error first))
  | table =>
      refine ⟨⟨.unexpected [.identifier, .leftParen], s.cursor⟩, ?_, rfl,
        by rintro ⟨_, h⟩; cases h⟩
      have first : tablePrimary (levelled limit levels) s =
          .error ⟨.unexpected [.identifier, .leftParen], s.cursor⟩ s := by
        rcases start with h | h <;>
          simp [tablePrimary, bind, EStateM.bind, kind, h, unexpected, fail]
      exact bind_of_error first

private theorem query_leads (limit levels : Nat) (opens : s.kind = .leftParen) :
    Leads (fun k => ¬GoesOn k) (enclosed (levelled limit levels .body))
      (levelled limit (levels + 1) .query) s := by
  have inside : ∀ e, DeepOnlyAfter 0 (levelled limit levels e) := fun e =>
    (levelled_forward limit levels e).deepOnlyAfter
  refine Leads.of_eq (query_of_ne _ _ (by simp [opens])) ((body_leads inside opens).bind fun b => ?_)
  exact ⟨.bind (.orderBy inside (guarded_parens inside)) fun _ => .pure _,
    .bind (fun t halt => Or.inl ⟨[], orderBy_of_ne fun h => halt (h ▸ .order)⟩) fun _ => .pure _⟩

private theorem follows_of_shallow {α β : Type} {query : EStateM.Result Failure State α}
    {other : EStateM.Result Failure State β} {g : Failure} {u : State} (run : other = .error g u)
    (shallow : ¬g.TooDeep) (near : ∀ f t, query = .error f t → f.remaining ≤ g.remaining) :
    Follows query other := by
  intro f t failed
  refine ⟨fun _ => ⟨g, u, run, Or.inr (near f t failed)⟩, fun _ => ⟨?_, ?_⟩⟩
  · intro g' u' run' deep
    cases run.symm.trans run'
    exact absurd deep shallow
  · intro b u' run'
    cases run.symm.trans run'

private theorem follows_of_deep {α β : Type} {query : EStateM.Result Failure State α}
    {other : EStateM.Result Failure State β} {f : Failure} {t : State} (run : query = .error f t)
    (deep : f.TooDeep) (also : ∃ g u, other = .error g u ∧ g.TooDeep) : Follows query other := by
  intro f' t' run'
  cases run.symm.trans run'
  obtain ⟨g, u, run, isDeep⟩ := also
  exact ⟨fun _ => ⟨g, u, run, Or.inl isDeep⟩, fun shallow => absurd deep shallow⟩

/-- A parenthesis inside a parenthesis holds no body: the body of the query reading fails there. -/
private theorem follows_of_body_error {s : State} (complete : s.Complete)
    (opens : s.kind = .leftParen)
    (ih : ∀ t : State, t.Complete → startsQuery t.kind = true →
      Follows (closed (levelled limit levels .query) t) (closed (o.parser (levelled limit levels)) t))
    {f : Failure} {t : State} (read : levelled limit levels .body s.advance = .error f t) :
    Follows (closed (levelled limit (levels + 1) .query) s)
      (closed (o.parser (levelled limit (levels + 1))) s) := by
  have inside := s.advance_within.complete complete
  have query := (query_leads limit levels opens).closed.1 f t
    ((enclosed_of_kind opens).trans (bind_of_error read))
  cases levels with
  | zero =>
      have deep : f.TooDeep := by cases read; exact ⟨limit, rfl⟩
      refine follows_of_deep query deep ?_
      by_cases starts : startsQuery s.advance.kind = true
      · exact other_of_deep_body limit 0 o complete opens starts ⟨limit, rfl⟩ closed_query_zero
          (ih _ inside starts)
      · refine ⟨⟨.tooDeep limit, s.advance.cursor⟩, s.advance,
          (other_leads limit 0 o opens).closed.1 _ _ ?_, limit, rfl⟩
        rw [parenthesized_of_no_query opens (by simpa using starts)]
        exact map_of_error (closed_other_zero limit o)
  | succ levels =>
      by_cases start : s.advance.kind = .keyword .SELECT ∨ s.advance.kind = .leftParen
      · have starts : startsQuery s.advance.kind = true := by
          rcases start with h | h <;> rw [h] <;> rfl
        have first : closed (levelled limit (levels + 1) .query) s.advance = .error f t := by
          have same := query_of_ne (levelled limit levels) (s.advance)
            (by rcases start with h | h <;> simp [h])
          exact bind_of_error (same.trans (bind_of_error read))
        by_cases deep : f.TooDeep
        · exact follows_of_deep query deep
            (other_of_deep_body limit (levels + 1) o complete opens starts deep first (ih _ inside starts))
        · refine follows_of_past query deep (other_of_readings limit (levels + 1) o complete opens
            starts (fun q u run => ?_) (fun g u run => ?_) (ih _ inside starts))
          · cases first.symm.trans run
          · cases first.symm.trans run
            exact ⟨Nat.le_refl _, fun h => absurd h deep⟩
      · rw [not_or] at start
        have none := body_of_ne (levelled limit levels) _ start.1 start.2
        cases read.symm.trans none
        exact follows_of_past query (by rintro ⟨_, h⟩; cases h)
          (other_past_first limit levels o complete opens)

private theorem closed_query_of_body {b : Body} {t : State}
    (start : s.kind = .keyword .SELECT ∨ s.kind = .leftParen)
    (read : levelled limit (levels + 1) .body s = .ok b t) :
    closed (levelled limit (levels + 1) .query) s = closed (afterBody (levelled limit levels) b) t := by
  have same := query_of_ne (levelled limit levels) s (by rcases start with h | h <;> simp [h])
  have run : levelled limit (levels + 1) .query s = afterBody (levelled limit levels) b t :=
    same.trans (bind_of_ok read)
  simp only [closed, Bind.bind, EStateM.bind, run]

/-- The query reading past a body that is closed by a parenthesis. -/
private theorem follows_of_closed_body {s : State} (complete : s.Complete) (opens : s.kind = .leftParen)
    {b : Body} {t : State} (starts : startsQuery s.advance.kind = true)
    (read : levelled limit (levels + 1) .body s.advance = .ok b t) (closes : t.kind = .rightParen)
    (first : closed (levelled limit (levels + 1) .query) s.advance =
      closed (afterBody (levelled limit levels) b) t) :
    Follows (closed (levelled limit (levels + 2) .query) s)
      (closed (o.parser (levelled limit (levels + 2))) s) := by
  have inside := s.advance_within.complete complete
  have ahead := ((levelled_forward limit (levels + 1) .body).of_ok inside read).complete inside
  have query := (query_leads limit (levels + 1) opens).closed
  rw [enclosed_of_kind opens] at query
  have whole := first.trans (closed_of_kind (bind_of_ok (orderBy_of_ne (by simp [closes]))) closes)
  have past := other_past limit (levels + 1) o complete opens
    (parenthesized_of_query opens starts whole)
  obtain ⟨rest, run, guarded, halts⟩ := query.2 b _ (closed_of_kind read closes)
  by_cases goesOn : GoesOn t.advance.kind
  · -- only a query goes on here: the other reading stops and misses its closing parenthesis
    obtain ⟨p, same, _, stops⟩ := (other_leads limit (levels + 1) o opens).closed.2 _ _
      (parenthesized_of_query opens starts whole)
    obtain ⟨g, u, failed⟩ := stops.closed_of_goesOn goesOn
    have here := stops.closed_error goesOn failed
    refine follows_of_shallow (same.trans failed) here.2 fun f v failed => ?_
    have later := guarded.deepOnlyAfter.1.closed.of_error (t.advance_within.complete ahead)
      (run.symm.trans failed)
    rw [Failure.remaining, Failure.remaining, here.1]
    exact later.1.remaining_le
  · intro f v failed
    have here := halts.closed_error goesOn (run.symm.trans failed)
    have same : f.remaining = t.advance.remaining := congrArg Cursor.remaining here.1
    rw [← same] at past
    exact ⟨fun deep => absurd deep here.2, fun _ => past⟩

/-- A parenthesis inside a parenthesis holds a body: the query reading goes on after it. -/
private theorem follows_of_body {s : State} (complete : s.Complete) (opens : s.kind = .leftParen)
    (ih : ∀ t : State, t.Complete → startsQuery t.kind = true →
      Follows (closed (levelled limit levels .query) t) (closed (o.parser (levelled limit levels)) t))
    {b : Body} {t : State} (read : levelled limit levels .body s.advance = .ok b t) :
    Follows (closed (levelled limit (levels + 1) .query) s)
      (closed (o.parser (levelled limit (levels + 1))) s) := by
  have inside := s.advance_within.complete complete
  have ahead := ((levelled_forward limit levels .body).of_ok inside read).complete inside
  cases levels with
  | zero => cases read
  | succ levels =>
      have start := body_start read
      have starts : startsQuery s.advance.kind = true := by
        rcases start with h | h <;> rw [h] <;> rfl
      have first := closed_query_of_body start read
      by_cases closes : t.kind = .rightParen
      · exact follows_of_closed_body complete opens starts read closes first
      · have query := (query_leads limit (levels + 1) opens).closed.1
        rw [enclosed_of_kind opens] at query
        have after : DeepOnlyAfter 1 (afterBody (levelled limit levels) b) := by
          have inner : ∀ e, DeepOnlyAfter 0 (levelled limit levels e) := fun e =>
            (levelled_forward limit levels e).deepOnlyAfter
          exact Guarded.deepOnlyAfter
            (.bind (.orderBy inner (guarded_parens inner)) fun _ => .pure _)
        refine follows_of_past (query _ _ (closed_of_ne read closes)) (by rintro ⟨_, h⟩; cases h)
          (other_of_readings limit (levels + 1) o complete opens starts (fun q u run => ?_)
            (fun g u run => ⟨?_, fun deep => ?_⟩) (ih _ inside starts))
        · exact Nat.le_of_lt (closed_remaining after.1 ahead (first.symm.trans run))
        · exact (after.1.closed.of_error ahead (first.symm.trans run)).1.remaining_le
        · exact after.closed.2 t ahead g u (first.symm.trans run) deep

end

/-- The other reading of a parenthesis follows the query reading, both with the same levels left. -/
theorem follows (limit levels : Nat) (o : Other) (s : State) (complete : s.Complete)
    (starts : startsQuery s.kind = true) :
    Follows (closed (levelled limit levels .query) s) (closed (o.parser (levelled limit levels)) s) := by
  induction levels generalizing s with
  | zero => exact follows_of_deep closed_query_zero ⟨_, rfl⟩ ⟨_, _, closed_other_zero limit o, _, rfl⟩
  | succ levels ih =>
      have forward := (levelled_forward limit (levels + 1) .query).closed
      by_cases opens : s.kind = .leftParen
      · cases read : levelled limit levels .body s.advance with
        | error f t => exact follows_of_body_error complete opens ih read
        | ok b t => exact follows_of_body complete opens ih read
      · have start : s.kind = .keyword .SELECT ∨ s.kind = .keyword .WITH := by
          unfold startsQuery at starts
          split at starts <;> simp_all
        obtain ⟨g, run, same, shallow⟩ := other_of_keyword limit levels o start
        refine follows_of_shallow (bind_of_error run) shallow fun f t failed => ?_
        have within := (forward.of_error complete failed).1.remaining_le
        rw [Failure.remaining, Failure.remaining, same]
        exact within

end SelectSyntax.Parse
