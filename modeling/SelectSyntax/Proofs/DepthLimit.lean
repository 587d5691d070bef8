import SelectSyntax.Proofs.Levels
import SelectSyntax.Proofs.Overlap

/-!
A limit on nesting changes no outcome but to refuse it. With fewer levels left every parser either
finds a construct too deep or does what it does with more levels left.
-/

set_option autoImplicit false
set_option relaxedAutoImplicit false

namespace SelectSyntax.Parse

open SyntaxTree (Statement)

/-- Parsers of which the first one goes forward, and either finds a construct too deep or does what the
second one does. -/
def Restricts {α : Type} (p p' : Parser α) : Prop :=
  Forward p ∧ ∀ s : State, s.Complete → Agree Failure.TooDeep (p s) (p' s)

theorem Agree.closed {α : Type} {p p' : Parser α} {s : State}
    (h : Agree Failure.TooDeep (p s) (p' s)) :
    Agree Failure.TooDeep (closed p s) (Parse.closed p' s) :=
  h.bind fun _ _ _ => Or.inr rfl

theorem Agree.map {α β : Type} (f : α → β) {p p' : Parser α} {s : State}
    (h : Agree Failure.TooDeep (p s) (p' s)) : Agree Failure.TooDeep ((f <$> p) s) ((f <$> p') s) := by
  rw [map_eq_pure_bind, map_eq_pure_bind]
  exact h.bind fun _ _ _ => Or.inr rfl

theorem Alike.restricts {α : Type} {p p' : Parser α}
    (alike : Alike (fun _ => Restricts) (fun _ => Restricts) false none p p') : Restricts p p' := by
  refine ⟨alike.forward (fun _ _ _ pair => pair.1) (fun _ _ _ pair => pair.1), fun s complete => ?_⟩
  exact alike.agree Failure.TooDeep s.remaining s
    (fun _ _ _ pair => ⟨pair.1, fun t within _ _ => pair.2 t within⟩)
    (fun _ _ _ pair => ⟨pair.1, fun t within _ _ => pair.2 t within⟩) complete (Nat.le_refl _)
    (by simp) (by simp)

/-- The choice between two readings restricts a choice if the readings do, and if the other reading
follows the query reading. -/
private theorem prefer_agree {α β : Type} {query query' : Parser α} {other other' : Parser β}
    {s : State} (returns : Returns query s) (first : Agree Failure.TooDeep (query s) (query' s))
    (second : Agree Failure.TooDeep (other s) (other' s)) (follows : Follows (query s) (other s)) :
    Agree Failure.TooDeep (prefer (Sum.inl <$> query) (Sum.inr <$> other) s)
      (prefer (Sum.inl <$> query') (Sum.inr <$> other') s) := by
  cases run : query s with
  | ok q t =>
      have same : query' s = .ok q t := by
        rcases first with ⟨f, u, failed, _⟩ | same
        · cases run.symm.trans failed
        · exact same.symm.trans run
      rw [prefer_of_ok (map_of_ok run), prefer_of_ok (map_of_ok same)]
      exact Or.inr rfl
  | error f t =>
      have compared := follows f t run
      have fails : ∀ {g : Failure} {u : State}, other s = .error g u →
          prefer (Sum.inl <$> query) (Sum.inr <$> other) s = .error (f.further g) u := fun failed =>
        prefer_of_errors returns.map (map_of_error run) (map_of_error failed)
      by_cases deep : f.TooDeep
      · obtain ⟨g, u, failed, near⟩ := compared.1 deep
        refine Or.inl ⟨f.further g, u, fails failed, ?_⟩
        rcases f.further_eq_or g with ⟨same, _⟩ | ⟨same, less⟩ <;> rw [same]
        · exact deep
        · exact near.resolve_right (by omega)
      · have same : query' s = .error f t := by
          rcases first with ⟨g, u, failed, isDeep⟩ | same
          · cases run.symm.trans failed
            exact absurd isDeep deep
          · exact same.symm.trans run
        rcases second with ⟨g, u, failed, isDeep⟩ | same'
        · have less := (compared.2 deep).1 g u failed isDeep
          refine Or.inl ⟨f.further g, u, fails failed, ?_⟩
          rcases f.further_eq_or g with ⟨_, le⟩ | ⟨same, _⟩
          · omega
          · rwa [same]
        · exact Or.inr (prefer_same returns.map (map_same (run.trans same.symm)) (map_same same'))

private theorem other_restricts {i i' : Inner} (inside : ∀ e, Restricts (i e) (i' e)) (o : Other) :
    Restricts (o.parser i) (o.parser i') := by
  cases o with
  | values => exact Alike.restricts (.commaList (.free (inside .condition)))
  | table => exact inside .table

private theorem parenthesized_restricts {limit limit' levels levels' : Nat} (o : Other)
    (inside : ∀ e, Restricts (levelled limit levels e) (levelled limit' levels' e)) :
    Restricts (parenthesized (levelled limit levels .query) (o.parser (levelled limit levels)))
      (parenthesized (levelled limit' levels' .query) (o.parser (levelled limit' levels'))) := by
  have other := other_restricts inside o
  refine ⟨(inside .query).1.parenthesized other.1, fun s complete => ?_⟩
  have ahead := s.advance_within.complete complete
  have second := ((other.2 s.advance ahead).closed)
  by_cases opens : s.kind = .leftParen
  · rw [parenthesized_of_kind opens, parenthesized_of_kind opens]
    split
    · rename_i starts
      exact prefer_agree ((inside .query).1.returns_closed complete) ((inside .query).2 s.advance ahead).closed second
        (follows limit levels o s.advance ahead starts)
    · exact second.map _
  · rw [parenthesized_of_ne opens, parenthesized_of_ne opens]
    exact Or.inr rfl

/-- With fewer levels left a construct is too deep, or all is as with more levels left. -/
theorem levelled_restricts (limit limit' : Nat) {levels levels' : Nat} (le : levels ≤ levels')
    (e : Entry) : Restricts (levelled limit levels e) (levelled limit' levels' e) := by
  induction levels generalizing levels' e with
  | zero => exact ⟨levelled_forward limit 0 e, fun s _ => Or.inl ⟨_, s, rfl, limit, rfl⟩⟩
  | succ levels ih =>
      obtain ⟨levels', rfl⟩ : ∃ k, levels' = k + 1 := ⟨levels' - 1, by omega⟩
      have inside : ∀ e, Restricts (levelled limit levels e) (levelled limit' levels' e) := fun e =>
        ih (by omega) e
      exact Alike.restricts (Alike.rule inside (.free (parenthesized_restricts .values inside))
        (.free (parenthesized_restricts .table inside)) e)

end SelectSyntax.Parse

namespace SelectSyntax.Session

open Parse
open SyntaxTree (Expr Statement)

/-- The rules that may be run on a session: a whole statement, a query, and a search condition. -/
inductive Call where
  | statement
  | query
  | condition
  deriving DecidableEq, Repr

namespace Call

abbrev Result : Call → Type
  | .statement | .query => Statement
  | .condition => Expr

/-- The outcome of a rule, and the session afterwards. -/
def run : (c : Call) → Session → Except ParseError c.Result × Session
  | .statement => parse
  | .query => select
  | .condition => Session.condition

/-- The parser of a rule, with as many levels left as may be opened. -/
def parser (s : Session) : (c : Call) → Parser c.Result
  | .statement => wholeStatement s.config.requireEnd s.inside
  | .query => s.inside .query
  | .condition => s.inside .condition

theorem run_eq (c : Call) (s : Session) : c.run s = s.run (c.parser s) := by
  cases c with
  | statement =>
      have same : wholeStatement s.config.requireEnd s.construct s.state =
          wholeStatement s.config.requireEnd s.inside s.state := bind_same (s.construct_state .query)
      exact run_same same
  | query => exact run_same (s.construct_state .query)
  | condition => exact run_same (s.construct_state .condition)

theorem ofSql_eq_run (text : String) :
    Statement.ofSql text = ((ofText text {}).run (Call.statement.parser (ofText text {}))).1 :=
  congrArg Prod.fst (run_eq .statement _)

private theorem end_alike {free held : Pairs} (requireEnd : Bool) (statement : Statement) :
    let rest : Parser Statement := do
      let _ ← eat .semicolon
      let k ← kind
      if requireEnd && k != .eof then unexpected [.eof] else pure statement
    Alike free held false none rest rest := by
  refine .step (eat_step rfl) fun _ => .kind fun k => ?_
  split
  · exact .unexpected _
  · exact .pure _

theorem parser_deepOnlyAfter (c : Call) (s : Session) : DeepOnlyAfter s.levels (c.parser s) := by
  cases c with
  | statement =>
      exact Guarded.deepOnlyAfter
        (.bind (.free (levelled_deepOnlyAfter _ _ .query)) fun q => end_alike _ q)
  | query => exact levelled_deepOnlyAfter _ _ .query
  | condition => exact levelled_deepOnlyAfter _ _ .condition

theorem parser_restricts (c : Call) {s s' : Session} (le : s.levels ≤ s'.levels)
    (same : s.config.requireEnd = s'.config.requireEnd) : Restricts (c.parser s) (c.parser s') := by
  have constructs := levelled_restricts s.limit s'.limit le
  cases c with
  | statement =>
      refine Alike.restricts (.bind (.free (constructs .query)) fun q => ?_)
      rw [same]
      exact end_alike _ q
  | query => exact constructs .query
  | condition => exact constructs .condition

end Call

/-- A run that is refused because constructs are nested deeper than the limit. -/
def Refused {α : Type} (r : Except ParseError α × Session) : Prop :=
  ∃ e, r.1 = .error e ∧ e.kind = .nestingTooDeep

/-- Runs with the same outcome that leave the scanner and the numbering of parameters in the same
state. -/
def SameRun {α : Type} (r r' : Except ParseError α × Session) : Prop :=
  r.1 = r'.1 ∧ r.2.scanner = r'.2.scanner ∧ r.2.parameters = r'.2.parameters

theorem SameRun.symm {α : Type} {r r' : Except ParseError α × Session} (h : SameRun r r') :
    SameRun r' r :=
  ⟨h.1.symm, h.2.1.symm, h.2.2.symm⟩

theorem SameRun.trans {α : Type} {r r' r'' : Except ParseError α × Session} (h : SameRun r r')
    (h' : SameRun r' r'') : SameRun r r'' :=
  ⟨h.1.trans h'.1, h.2.1.trans h'.2.1, h.2.2.trans h'.2.2⟩

private theorem refused_of_tooDeep {α : Type} {s : Session} {p : Parser α} {f : Failure} {t : State}
    (run : p s.state = .error f t) (deep : f.TooDeep) : Refused (s.run p) :=
  ⟨f.toError, run_eq_error.mpr ⟨f, t, run, rfl⟩, Failure.kind_toError_eq_nestingTooDeep.mpr deep⟩

private theorem tooDeep_of_refused {α : Type} {s : Session} {p : Parser α}
    (refused : Refused (s.run p)) : ∃ f t, p s.state = .error f t ∧ f.TooDeep := by
  obtain ⟨e, failed, kind⟩ := refused
  obtain ⟨f, t, run, rfl⟩ := run_eq_error.mp failed
  exact ⟨f, t, run, Failure.kind_toError_eq_nestingTooDeep.mp kind⟩

private theorem refused_or_same (c : Call) (text : String) (requireEnd : Bool) (d d' : Option Nat)
    (le : (ofText text ⟨d, requireEnd⟩).levels ≤ (ofText text ⟨d', requireEnd⟩).levels) :
    Refused (c.run (ofText text ⟨d, requireEnd⟩)) ∨
      SameRun (c.run (ofText text ⟨d, requireEnd⟩)) (c.run (ofText text ⟨d', requireEnd⟩)) := by
  have agree := (c.parser_restricts le rfl).2 _ (ofText text ⟨d, requireEnd⟩).complete
  rw [c.run_eq, c.run_eq]
  rcases agree with ⟨f, t, run, deep⟩ | agree
  · exact Or.inl (refused_of_tooDeep run deep)
  · right
    have also : (ofText text ⟨d, requireEnd⟩).state = (ofText text ⟨d', requireEnd⟩).state := rfl
    simp only [Session.run, SameRun]
    rw [agree, also]
    cases c.parser (ofText text ⟨d', requireEnd⟩) (ofText text ⟨d', requireEnd⟩).state with
    | ok a t => exact ⟨rfl, rfl, rfl⟩
    | error f t => exact ⟨rfl, rfl, rfl⟩

theorem not_tooDeep_of_unlimited (c : Call) (text : String) (requireEnd : Bool) {f : Failure} {t : State}
    (run : c.parser (ofText text ⟨none, requireEnd⟩) (ofText text ⟨none, requireEnd⟩).state = .error f t) :
    ¬f.TooDeep := by
  intro deep
  have far := (c.parser_deepOnlyAfter _).2 _ (ofText text ⟨none, requireEnd⟩).complete f t run deep
  have levels : (ofText text ⟨none, requireEnd⟩).levels =
      (ofText text ⟨none, requireEnd⟩).state.remaining + 1 := rfl
  omega

theorem not_refused_of_unlimited (c : Call) (text : String) (requireEnd : Bool) :
    ¬Refused (c.run (ofText text ⟨none, requireEnd⟩)) := by
  intro refused
  rw [c.run_eq] at refused
  obtain ⟨f, t, run, deep⟩ := tooDeep_of_refused refused
  exact not_tooDeep_of_unlimited c text requireEnd run deep

private theorem refused_or_unlimited (c : Call) (text : String) (requireEnd : Bool) (m : Nat) :
    Refused (c.run (ofText text ⟨some m, requireEnd⟩)) ∨
      SameRun (c.run (ofText text ⟨some m, requireEnd⟩))
        (c.run (ofText text ⟨none, requireEnd⟩)) := by
  rcases Nat.le_total (ofText text ⟨some m, requireEnd⟩).levels
      (ofText text ⟨none, requireEnd⟩).levels with le | le
  · exact refused_or_same c text requireEnd _ _ le
  · rcases refused_or_same c text requireEnd _ _ le with refused | same
    · exact absurd refused (not_refused_of_unlimited c text requireEnd)
    · exact Or.inr same.symm

/-- A limit on nesting refuses a text, or changes neither the outcome nor the state of the scanner; and
where a limit does not refuse a text, no higher one does. -/
theorem limit_transparent (c : Call) (text : String) (requireEnd : Bool) (m : Nat) :
    (Refused (c.run (ofText text ⟨some m, requireEnd⟩)) ∨
      SameRun (c.run (ofText text ⟨some m, requireEnd⟩))
        (c.run (ofText text ⟨none, requireEnd⟩))) ∧
    (¬Refused (c.run (ofText text ⟨some m, requireEnd⟩)) → ∀ m', m ≤ m' →
      SameRun (c.run (ofText text ⟨some m', requireEnd⟩))
        (c.run (ofText text ⟨none, requireEnd⟩))) := by
  have either := refused_or_unlimited c text requireEnd m
  refine ⟨either, fun accepted m' le => ?_⟩
  have unlimited := either.resolve_left accepted
  have raised := (refused_or_same c text requireEnd (some m) (some m') le).resolve_left accepted
  exact raised.symm.trans unlimited

/-- Three levels are not enough for this list, and four change nothing. -/
theorem limit_transparent_list :
    let run := fun limit => Call.condition.run (ofText "a IN ((NOT b))" ⟨limit, true⟩)
    Refused (run (some 3)) ∧ ¬Refused (run (some 4)) ∧ ∀ m, 4 ≤ m → SameRun (run (some m)) (run none) := by
  intro run
  obtain ⟨e, accepted⟩ : ∃ e, (run (some 4)).1 = .ok e := ⟨_, rfl⟩
  obtain ⟨e', unlimited⟩ : ∃ e, (run none).1 = .ok e := ⟨_, rfl⟩
  obtain ⟨f, limited⟩ : ∃ f, (run (some 3)).1 = .error f := ⟨_, rfl⟩
  have other : ¬SameRun (run (some 3)) (run none) := by
    rintro ⟨same, _⟩
    rw [limited, unlimited] at same
    cases same
  have free : ¬Refused (run (some 4)) := by
    rintro ⟨_, refused, _⟩
    rw [accepted] at refused
    cases refused
  exact ⟨(limit_transparent .condition "a IN ((NOT b))" true 3).1.resolve_right other, free,
    (limit_transparent .condition "a IN ((NOT b))" true 4).2 free⟩

end SelectSyntax.Session
