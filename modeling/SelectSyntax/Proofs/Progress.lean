import SelectSyntax.Proofs.Rules

/-!
Every rule stays among the tokens ahead of it and stops no later than at the token where it fails, and it reaches
the constructs one level further in only after it has taken a token. So a construct is found to be too deep only past
the start of the rule that calls it, and never with one level for each token left.
-/

set_option autoImplicit false
set_option relaxedAutoImplicit false

namespace SelectSyntax.Parse

open SyntaxTree (Statement)

section
variable {α : Type} {query : Parser Statement} {other : Parser α}

theorem Forward.map {β : Type} {p : Parser α} (f : α → β) (h : Forward p) : Forward (f <$> p) := by
  rw [map_eq_pure_bind]
  exact h.bind fun a s _ => .refl s

theorem Forward.closed {p : Parser α} (h : Forward p) : Forward (closed p) :=
  h.bind fun _ => (expect_step rfl).forward.bind fun _ s _ => .refl s

theorem Forward.returns_closed {p : Parser α} (h : Forward p) {s : State} (complete : s.Complete) :
    Returns (Parse.closed p) s.advance :=
  h.closed.returns (s.advance_within.complete complete)

theorem Forward.prefer {p q : Parser α} (first : Forward p) (second : Forward q) :
    Forward (prefer p q) := by
  refine .intro (fun s a t complete run => ?_) (fun s e t complete run => ?_)
  · rcases prefer_eq_ok (first.returns complete) run with run | ⟨_, run⟩
    · exact first.of_ok complete run
    · exact second.of_ok complete run
  · obtain ⟨f, u, g, run₁, run₂, rfl⟩ := prefer_eq_error (first.returns complete) run
    have later := second.failure_within complete run₂
    rcases f.further_eq_or g with ⟨same, less⟩ | ⟨same, _⟩ <;> rw [same]
    -- The state is the one that the second reading left, which had not gone past its own failure.
    · have le := Nat.le_trans less later.1.remaining_le
      exact ⟨(first.of_error complete run₁).1.of_remaining_le later.2.cursor le, later.2⟩
    · exact later

private theorem parenthesized_error {s t : State} {f : Failure}
    (returns : Returns (Parse.closed query) s.advance) (opens : s.kind = .leftParen)
    (run : parenthesized query other s = .error f t) :
    (∃ u, Parse.closed query s.advance = .error f u) ∨
      ∃ u, Parse.closed other s.advance = .error f u := by
  rw [parenthesized_of_kind opens] at run
  split at run
  · obtain ⟨g, u, h, run₁, run₂, rfl⟩ := prefer_eq_error returns.map run
    rcases g.further_eq_or h with ⟨same, _⟩ | ⟨same, _⟩ <;> rw [same]
    · exact Or.inl ⟨u, map_eq_error.mp run₁⟩
    · exact Or.inr ⟨t, map_eq_error.mp run₂⟩
  · exact Or.inr ⟨t, map_eq_error.mp run⟩

theorem Forward.readings (first : Forward query) (second : Forward other) (k : Token.Kind) :
    Forward (if startsQuery k then
      Parse.prefer (Sum.inl <$> Parse.closed query) (Sum.inr <$> Parse.closed other)
      else Sum.inr <$> Parse.closed other) := by
  split
  · exact (first.closed.map _).prefer (second.closed.map _)
  · exact second.closed.map _

theorem Forward.parenthesized (first : Forward query) (second : Forward other) :
    Forward (parenthesized query other) :=
  (expect_step rfl).forward.bind fun _ s complete => first.readings second s.kind s complete

/-- A parser that goes forward and finds a construct too deep only so many tokens past its start. -/
def DeepOnlyAfter {α : Type} (tokens : Nat) (p : Parser α) : Prop :=
  Forward p ∧ ∀ s : State, s.Complete → ∀ f t, p s = .error f t → f.TooDeep →
    f.remaining + tokens ≤ s.remaining

theorem Forward.deepOnlyAfter {p : Parser α} (h : Forward p) : DeepOnlyAfter 0 p :=
  ⟨h, fun _ complete _ _ run _ => (h.of_error complete run).1.remaining_le⟩

theorem DeepOnlyAfter.closed {k : Nat} {p : Parser α} (h : DeepOnlyAfter k p) :
    DeepOnlyAfter k (closed p) := by
  refine ⟨h.1.closed, fun s complete f t run deep => ?_⟩
  rcases bind_eq_error.mp run with run | ⟨a, u, run₁, run₂⟩
  · exact h.2 s complete f t run deep
  · rcases bind_eq_error.mp run₂ with run₂ | ⟨_, v, _, run₂⟩
    · have step := (expect_step (k := .rightParen) rfl).stays u ((h.1.of_ok complete run₁).complete complete)
      simp only [run₂] at step
      exact absurd deep step.2.2
    · cases run₂

theorem DeepOnlyAfter.parenthesized {k : Nat} (first : DeepOnlyAfter k query)
    (second : DeepOnlyAfter k other) : DeepOnlyAfter (k + 1) (parenthesized query other) := by
  refine ⟨first.1.parenthesized second.1, fun s complete f t run deep => ?_⟩
  by_cases opens : s.kind = .leftParen
  · have less : s.advance.remaining < s.remaining :=
      complete.remaining_advance (by rw [opens]; rfl)
    have inside := s.advance_within.complete complete
    have within : f.remaining + k ≤ s.advance.remaining := by
      rcases parenthesized_error (first.1.returns_closed complete) opens run with ⟨u, run⟩ | ⟨u, run⟩
      · exact first.closed.2 _ inside f u run deep
      · exact second.closed.2 _ inside f u run deep
    omega
  · rw [parenthesized_of_ne opens] at run
    cases run
    obtain ⟨limit, cause⟩ := deep
    cases cause

end

/-- Parsers that are made of parsers that find a construct too deep only so many tokens past their
start, or one token less past it once a token has been taken. -/
abbrev Guarded {α : Type} (tokens : Nat) (p : Parser α) : Prop :=
  Alike (fun _ p _ => DeepOnlyAfter tokens p) (fun _ p _ => DeepOnlyAfter (tokens - 1) p) false none
    p p

theorem Guarded.deepOnlyAfter {α : Type} {k : Nat} {p : Parser α} (h : Guarded k p) :
    DeepOnlyAfter k p := by
  refine ⟨h.forward (fun _ _ _ pair => pair.1) (fun _ _ _ pair => pair.1), ?_⟩
  intro s complete f t run deep
  have avoids := h.avoids (fun f => f.TooDeep ∧ s.remaining < f.remaining + k) s.remaining
    (fun _ bad => bad.1) (fun _ p _ pair => ⟨pair.1, ?_⟩)
    (fun _ p _ pair => ⟨pair.1, ?_⟩) s complete (Nat.le_refl _) (by simp) (by simp) f t run
  · exact Nat.le_of_not_lt fun less => avoids ⟨deep, less⟩
  · intro u complete le f v run bad
    have less := pair.2 u complete f v run bad.1
    omega
  · intro u complete less f v run bad
    have le := pair.2 u complete f v run bad.1
    omega

section
variable {i : Inner} {k : Nat} (inside : ∀ e, DeepOnlyAfter k (i e))
include inside

theorem conditions_deepOnlyAfter : DeepOnlyAfter k (conditions i) :=
  Guarded.deepOnlyAfter (.commaList (.free (inside .condition)))

theorem guarded_parens : Guarded (k + 1) (parenthesized (i .query) (conditions i)) :=
  .free (.parenthesized (inside .query) (conditions_deepOnlyAfter inside))

theorem guarded_tables : Guarded (k + 1) (parenthesized (i .query) (i .table)) :=
  .free (.parenthesized (inside .query) (inside .table))

theorem guarded_rule (e : Entry) : Guarded (k + 1) (rule i e) :=
  Alike.rule inside (guarded_parens inside) (guarded_tables inside) e

end

/-- The parser of each construct with so many levels left out of a limit. The levels that are left are counted
down as the recursion goes in, whatever the depth of the state. -/
def levelled (limit : Nat) : Nat → Inner
  | 0 => fun _ => fail (.tooDeep limit)
  | levels + 1 => rule (levelled limit levels)

theorem levelled_deepOnlyAfter (limit levels : Nat) (e : Entry) :
    DeepOnlyAfter levels (levelled limit levels e) := by
  induction levels generalizing e with
  | zero =>
      have forward : Forward (levelled limit 0 e) := fun s _ => ⟨.refl _, .refl s⟩
      exact forward.deepOnlyAfter
  | succ levels ih => exact (guarded_rule ih e).deepOnlyAfter

theorem levelled_forward (limit levels : Nat) (e : Entry) : Forward (levelled limit levels e) :=
  (levelled_deepOnlyAfter limit levels e).1

end SelectSyntax.Parse
