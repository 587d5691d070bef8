import SelectSyntax.Proofs.Recursion
import SelectSyntax.Proofs.DepthLimit

/-!
What errors expect. A parser that gives up lists the kinds that it would have gone on with, so that the kind
it found should be none of them. That is shown of parsers from what is known of the current token where they start
and where they end.
-/

set_option autoImplicit false
set_option relaxedAutoImplicit false

namespace SelectSyntax.Parse

open Token (Kind Keyword)
open SyntaxTree

/-- A failure that does not list the kind it found, unless that is the `NULL` of a truth test; a clause that
is not allowed is an `ON`. -/
def Failure.Consistent (f : Failure) : Prop :=
  match f.cause with
  | .unexpected expected => f.cursor.current.token.kind ∈ expected →
      f.cursor.current.token.kind = .keyword .NULL ∧ ∃ negated, expected = afterIs negated
  | .notAllowed _ => f.cursor.current.token.kind = .keyword .ON
  | .tooDeep _ => True

theorem Failure.consistent_of_not_mem {s : State} {expected : List Kind} (h : s.kind ∉ expected) :
    (⟨.unexpected expected, s.cursor⟩ : Failure).Consistent := fun mem => absurd mem h

/-- A consistent failure, unless it is one of nesting, is lexical exactly if the offending token is malformed. -/
theorem Failure.Consistent.lexical_iff {f : Failure} (h : f.Consistent) (shallow : ¬f.TooDeep) :
    f.toError.kind = .lexical ↔ ∃ fault, f.toError.found.kind = .fault fault := by
  unfold toError ParseError.kind
  cases cause : f.cause with
  | unexpected expected => cases kind : f.cursor.current.token.kind <;> simp
  | notAllowed what =>
      simp only [Failure.Consistent, cause] at h
      simp [h]
  | tooDeep limit => exact absurd ⟨limit, cause⟩ shallow

/-- A consistent failure because of a clause that is not allowed is at an `ON`. -/
theorem Failure.Consistent.kind_of_notAllowed {f : Failure} (h : f.Consistent)
    (notAllowed : f.toError.kind = .clauseNotAllowed) : f.toError.found.kind = .keyword .ON := by
  unfold toError ParseError.kind at notAllowed
  cases cause : f.cause with
  | unexpected expected =>
      rw [cause] at notAllowed
      cases kind : f.cursor.current.token.kind <;> simp [kind] at notAllowed
  | notAllowed what =>
      simp only [Failure.Consistent, cause] at h
      exact h
  | tooDeep limit => simp [cause] at notAllowed

/-- A parser whose failures are consistent where fewer than so many tokens are left and the current kind has
a property; where it succeeds, its value and the kind after it are related. -/
def Consistent (bound : Nat) (P : Kind → Prop) {α : Type} (p : Parser α) (Q : α → Kind → Prop) : Prop :=
  ∀ s : State, s.Complete → s.remaining < bound → P s.kind →
    (∀ a t, p s = .ok a t → t.Within s ∧ Q a t.kind) ∧ ∀ f t, p s = .error f t → f.Consistent

abbrev anyKind : Kind → Prop := fun _ => True

/-- Nothing is known of a value and the kind after it. -/
abbrev anyResult {α : Type} : α → Kind → Prop := fun _ _ => True

/-- A parser all of whose failures are consistent where fewer than so many tokens are left. -/
abbrev Coherent (bound : Nat) {α : Type} (p : Parser α) : Prop :=
  Consistent bound anyKind p anyResult

namespace Consistent

section
variable {n : Nat} {α β : Type} {P : Kind → Prop} {Q : α → Kind → Prop} {R : β → Kind → Prop}

theorem weaken {P' : Kind → Prop} {Q' : α → Kind → Prop} {p : Parser α} (h : Consistent n P p Q)
    (more : ∀ k, P' k → P k) (less : ∀ a k, Q a k → Q' a k) : Consistent n P' p Q' := by
  intro s complete bound known
  have run := h s complete bound (more _ known)
  exact ⟨fun a t ok => ⟨(run.1 a t ok).1, less _ _ (run.1 a t ok).2⟩, run.2⟩

theorem fact {p : Parser α} {φ : Prop} (h : ∀ k, P k → φ) (rest : φ → Consistent n P p Q) :
    Consistent n P p Q :=
  fun s complete bound known => rest (h _ known) s complete bound known

theorem mono {m : Nat} (le : m ≤ n) {p : Parser α} (h : Consistent n P p Q) : Consistent m P p Q :=
  fun s complete bound known => h s complete (Nat.lt_of_lt_of_le bound le) known

theorem known {p : Parser α} (h : Coherent n p) : Consistent n P p anyResult :=
  h.weaken (fun _ _ => trivial) fun _ _ => id

theorem pure (a : α) (h : ∀ k, P k → Q a k) : Consistent n P (pure a) Q := by
  intro s _ _ known
  refine ⟨fun b t run => ?_, fun f t run => by cases run⟩
  obtain ⟨rfl, rfl⟩ := pure_eq_ok.mp run
  exact ⟨.refl t, h _ known⟩

theorem giveUp {expected : List Kind} (h : ∀ k, P k → k ∈ expected →
      k = .keyword .NULL ∧ ∃ negated, expected = afterIs negated) :
    Consistent n P (Parse.unexpected expected : Parser α) Q := by
  intro s _ _ known
  refine ⟨fun a t run => (by cases run), fun f t run => ?_⟩
  cases run
  exact h _ known

theorem unexpected {expected : List Kind} (h : ∀ k, P k → k ∉ expected) :
    Consistent n P (Parse.unexpected expected : Parser α) Q :=
  giveUp fun k known mem => absurd mem (h k known)

theorem fail {cause : Cause} (h : ∀ s : State, P s.kind → (⟨cause, s.cursor⟩ : Failure).Consistent) :
    Consistent n P (fail cause : Parser α) Q := by
  intro s _ _ known
  refine ⟨fun a t run => (by cases run), fun f t run => ?_⟩
  cases run
  exact h s known

theorem bind {p : Parser β} {f : β → Parser α} (first : Consistent n P p R)
    (rest : ∀ b, Consistent n (R b) (f b) Q) : Consistent n P (p >>= f) Q := by
  intro s complete bound known
  have start := first s complete bound known
  have goesOn : ∀ b u, p s = .ok b u → u.Within s ∧ _ := fun b u ok =>
    ⟨(start.1 b u ok).1, rest b u ((start.1 b u ok).1.complete complete)
      (Nat.lt_of_le_of_lt (start.1 b u ok).1.remaining_le bound) (start.1 b u ok).2⟩
  refine ⟨fun a t run => ?_, fun f t run => ?_⟩
  · obtain ⟨b, u, run₁, run₂⟩ := bind_eq_ok.mp run
    have later := (goesOn b u run₁).2.1 a t run₂
    exact ⟨later.1.trans (goesOn b u run₁).1, later.2⟩
  · rcases bind_eq_error.mp run with run | ⟨b, u, run₁, run₂⟩
    · exact start.2 f t run
    · exact (goesOn b u run₁).2.2 f t run₂

theorem map {p : Parser β} {g : β → α} (h : Consistent n P p fun b k => Q (g b) k) :
    Consistent n P (g <$> p) Q := by
  rw [map_eq_pure_bind]
  exact h.bind fun b => .pure _ fun _ known => known

theorem eat (k : Kind) :
    Consistent n P (eat k) fun taken j => taken = false → P j ∧ j ≠ k := by
  intro s _ _ known
  refine ⟨fun taken t run => ?_, fun f t run => ?_⟩
  · rcases eat_eq_ok.mp run with ⟨rfl, _, rfl⟩ | ⟨rfl, other, rfl⟩
    · exact ⟨s.advance_within, by simp⟩
    · exact ⟨.refl _, fun _ => ⟨known, other⟩⟩
  · unfold Parse.eat at run
    split at run <;> cases run

theorem advance : Consistent n P advance anyResult :=
  fun s _ _ _ => ⟨fun _ _ run => by cases run; exact ⟨s.advance_within, trivial⟩, by rintro f t ⟨⟩⟩

theorem take? (read : Kind → Option α) :
    Consistent n P (take? read) fun o j => o = none → P j ∧ read j = none := by
  intro s _ _ known
  refine ⟨fun o t run => ?_, fun f t run => ?_⟩
  · rcases take?_eq_ok.mp run with ⟨a, rfl, _, rfl⟩ | ⟨rfl, none_, rfl⟩
    · exact ⟨s.advance_within, by simp⟩
    · exact ⟨.refl _, fun _ => ⟨known, none_⟩⟩
  · unfold Parse.take? at run
    split at run <;> cases run

theorem identifier? :
    Consistent n P identifier? fun o j => o = none → P j ∧ j ≠ .identifier := by
  intro s _ _ known
  refine ⟨fun o t run => ?_, fun f t run => ?_⟩
  · rcases identifier?_eq_ok.mp run with ⟨rfl, _, rfl⟩ | ⟨rfl, other, rfl⟩
    · exact ⟨s.advance_within, by simp⟩
    · exact ⟨.refl _, fun _ => ⟨known, other⟩⟩
  · unfold Parse.identifier? at run
    split at run <;> cases run

theorem kind {f : Kind → Parser α} (rest : ∀ k, P k → Consistent n (· = k) (f k) Q) :
    Consistent n P (Parse.kind >>= f) Q :=
  fun s complete bound known => rest s.kind known s complete bound rfl

theorem token {f : Token → Parser α} (rest : ∀ t : Token, P t.kind → Consistent n (· = t.kind) (f t) Q) :
    Consistent n P (Parse.token >>= f) Q :=
  fun s complete bound known => rest s.token known s complete bound rfl

theorem parameter : Consistent n P parameter anyResult :=
  fun s _ _ _ => ⟨fun _ _ run => by cases run; exact ⟨s.advance_within.numbered _, trivial⟩, by rintro f t ⟨⟩⟩

theorem expect (k : Kind) : Consistent n P (expect k) anyResult := by
  intro s _ _ _
  by_cases found : s.kind = k
  · rw [expect_of_kind found]
    exact ⟨fun _ _ run => by cases run; exact ⟨s.advance_within, trivial⟩, by rintro f t ⟨⟩⟩
  · rw [expect_of_ne found]
    refine ⟨by rintro u t ⟨⟩, fun f t run => ?_⟩
    cases run
    exact Failure.consistent_of_not_mem (by simpa using found)

/-- What comes after a token that has to be there has fewer tokens left. -/
theorem afterToken {k : Kind} (live : k.isTerminal = false) {p : Parser α}
    (rest : Consistent n anyKind p Q) : Consistent (n + 1) P (Parse.expect k >>= fun _ => p) Q := by
  intro s complete bound _
  by_cases found : s.kind = k
  · have less := complete.remaining_advance (found ▸ live)
    have later := rest s.advance (s.advance_within.complete complete) (by omega) trivial
    rw [bind_of_ok (expect_of_kind found)]
    exact ⟨fun a t run => ⟨(later.1 a t run).1.trans s.advance_within, (later.1 a t run).2⟩, later.2⟩
  · rw [bind_of_error (expect_of_ne found)]
    refine ⟨by rintro a t ⟨⟩, fun f t run => ?_⟩
    cases run
    exact Failure.consistent_of_not_mem (by simpa using found)

theorem eatToken {k : Kind} (live : k.isTerminal = false) {f : Bool → Parser α}
    (taken : Consistent n anyKind (f true) Q)
    (left : Consistent (n + 1) (fun j => P j ∧ j ≠ k) (f false) Q) :
    Consistent (n + 1) P (Parse.eat k >>= f) Q := by
  intro s complete bound known
  by_cases found : s.kind = k
  · have less := complete.remaining_advance (found ▸ live)
    have later := taken s.advance (s.advance_within.complete complete) (by omega) trivial
    rw [bind_of_ok (eat_of_kind found)]
    exact ⟨fun a t run => ⟨(later.1 a t run).1.trans s.advance_within, (later.1 a t run).2⟩, later.2⟩
  · rw [bind_of_ok (eat_of_ne found)]
    exact left s complete bound ⟨known, found⟩

/-- A repetition ends before a kind on which there is no item. -/
theorem many {item? : Parser (Option α)} (item : Takes item? Option.isSome) {E : Kind → Prop}
    (h : Consistent n anyKind item? fun o k => o = none → E k) :
    Consistent n anyKind (many item?) fun _ k => E k := by
  suffices general : ∀ m, m ≤ n → Consistent m anyKind (Parse.many item?) fun _ k => E k from
    general n (Nat.le_refl n)
  intro m
  induction m with
  | zero => intro _ s _ bound; omega
  | succ m ih =>
      intro le s complete bound _
      have first := h s complete (by omega) trivial
      rw [many_eq item complete]
      cases run : item? s with
      | error f t =>
          rw [bind_of_error run]
          exact ⟨by rintro a t ⟨⟩, fun g u same => by cases same; exact first.2 f t run⟩
      | ok o t =>
          have within := (first.1 o t run).1
          have ahead := within.complete complete
          rw [bind_of_ok run]
          cases o with
          | none =>
              refine ⟨fun items u same => ?_, by rintro f u ⟨⟩⟩
              obtain ⟨rfl, rfl⟩ := pure_eq_ok.mp same
              exact ⟨within, (first.1 none u run).2 rfl⟩
          | some a =>
              have less := item.takes s _ t complete run rfl
              have rest : Consistent m anyKind (do
                  let rest ← Parse.many item?
                  Pure.pure (a :: rest)) fun _ k => E k :=
                (ih (by omega)).bind fun _ => .pure _ fun _ known => known
              have later := rest t ahead (by omega) trivial
              exact ⟨fun items u same => ⟨((later.1 items u same).1).trans within,
                (later.1 items u same).2⟩, later.2⟩

theorem after? {k : Kind} {p : Parser α} (h : Consistent n anyKind p anyResult) :
    Consistent n P (after? k p) fun o j => o = none → P j ∧ j ≠ k := by
  refine (eat k).bind fun taken => ?_
  cases taken with
  | true => exact h.known.bind fun _ => .pure _ (by simp)
  | false => exact .pure none fun j known _ => known rfl

theorem separated {k : Kind} (live : k.isTerminal = false) {p : Parser α} (forward : Forward p)
    (first : Consistent n P p anyResult) (next : Consistent n anyKind p anyResult) :
    Consistent n P (separated k p) fun items j => items ≠ [] ∧ j ≠ k := by
  refine first.bind fun a => .bind (.many (after?_takes forward live) (E := (· ≠ k))
    ((after? next).weaken (fun _ _ => trivial) fun o j h none_ => (h none_).2)) fun rest => ?_
  exact .pure _ fun j stops => ⟨by simp, stops⟩

theorem chain {operator : Kind → Option BinaryOp}
    (live : ∀ k op, operator k = some op → k.isTerminal = false) {p : Parser Expr} (forward : Forward p)
    (h : Coherent n p) : Coherent n (chain operator p) := by
  have tails : Coherent n (tail? operator p) := by
    refine (take? operator).bind fun op => ?_
    cases op with
    | none => exact .pure none fun _ _ => trivial
    | some op =>
        exact Consistent.bind h.known fun _ =>
          .pure _ fun _ _ => trivial
  exact h.bind fun _ => .bind (.many (tail?_takes forward live) (E := anyKind)
    (tails.weaken (fun _ => id) fun _ _ _ _ => trivial)) fun _ => .pure _ fun _ _ => trivial

theorem closed {p : Parser α} (h : Consistent n P p anyResult) :
    Consistent n P (closed p) anyResult :=
  h.bind fun _ => (expect .rightParen).bind fun _ => .pure _ fun _ _ => trivial

theorem enclosed {p : Parser α} (h : Coherent n p) : Coherent n (enclosed p) :=
  (expect .leftParen).bind fun _ => closed h

theorem prefer {p q : Parser α} (forward : Forward p) (first : Consistent n P p anyResult)
    (second : Consistent n P q anyResult) : Consistent n P (prefer p q) anyResult := by
  intro s complete bound known
  have one := first s complete bound known
  have other := second s complete bound known
  refine ⟨fun a t run => ?_, fun f t run => ?_⟩
  · rcases prefer_eq_ok (forward.returns complete) run with run | ⟨_, run⟩
    · exact one.1 a t run
    · exact other.1 a t run
  · obtain ⟨g, u, h, run₁, run₂, rfl⟩ := prefer_eq_error (forward.returns complete) run
    rcases g.further_eq_or h with ⟨same, _⟩ | ⟨same, _⟩ <;> rw [same]
    · exact one.2 g u run₁
    · exact other.2 h t run₂

theorem parenthesized {query : Parser Statement} {other : Parser α} (forward : Forward query)
    (first : Coherent n query) (second : Coherent n other) : Coherent n (parenthesized query other) := by
  refine (expect .leftParen).bind fun _ => kind fun k _ => ?_
  have query : Consistent n (· = k) (Parse.closed query) anyResult :=
    (closed first).known
  have other : Consistent n (· = k) (Parse.closed other) anyResult :=
    (closed second).known
  split
  · exact prefer (forward.closed.map _) (map query) (map other)
  · exact map other

theorem identifier : Consistent n P identifier anyResult := by
  refine (identifier?).bind fun name => ?_
  cases name with
  | none => exact .unexpected fun k other => by simpa using (other rfl).2
  | some name => exact .pure _ fun _ _ => trivial

theorem identifier_forward : Forward Parse.identifier := by
  refine @forward_of_alike _ false none _ ?_
  exact .identifier

theorem identifierList : Consistent n P identifierList fun names _ => names ≠ [] := by
  refine (expect .leftParen).bind fun _ =>
    (separated rfl identifier_forward identifier identifier).bind fun names =>
      .fact (fun _ h => h.1) fun some_ => (eat .rightParen).bind fun closes => ?_
  cases closes with
  | false => exact .unexpected fun k h => by simp [(h rfl).1.2, (h rfl).2]
  | true => exact .pure names fun _ _ => some_

theorem optionalColumns :
    Consistent n P optionalColumns fun names k => names = [] → k ≠ .leftParen := by
  refine kind fun k _ => ?_
  split
  · exact identifierList.weaken (fun _ => id) fun _ _ some_ none_ => absurd none_ some_
  · rename_i other
    exact .pure [] fun j same _ => same ▸ other

theorem optionalAlias : Consistent n P optionalAlias anyResult := by
  refine (eat _).bind fun taken => ?_
  cases taken with
  | true => exact map identifier
  | false => exact identifier?.weaken (fun _ => id) fun _ _ _ => trivial

theorem requiredAlias : Consistent n P requiredAlias anyResult := by
  refine (eat _).bind fun taken => ?_
  cases taken with
  | true => exact identifier
  | false =>
      refine (identifier?).bind fun name => ?_
      cases name with
      | none => exact .unexpected fun k h => by simp [(h rfl).2, ((h rfl).1 rfl).2]
      | some name => exact .pure _ fun _ _ => trivial

private theorem pathThen {rest : Parser (List String × Bool)} (h : Coherent n rest) :
    Coherent (n + 1) (pathThen rest) := by
  refine (eat .star).bind fun star => ?_
  cases star with
  | true => exact .pure _ fun _ _ => trivial
  | false =>
      refine (identifier?).bind fun name => ?_
      cases name with
      | none => exact .unexpected fun k h => by simp [(h rfl).2, ((h rfl).1 rfl).2]
      | some name =>
          refine eatToken rfl (h.bind fun _ => .pure _ fun _ _ => trivial) ?_
          exact .pure _ fun _ _ => trivial

theorem columnPath : Coherent n columnPath := by
  induction n with
  | zero => intro s _ bound; omega
  | succ n ih =>
      intro s complete bound known
      rw [columnPath_eq complete]
      exact pathThen ih s complete bound known

end

end Consistent

end SelectSyntax.Parse
