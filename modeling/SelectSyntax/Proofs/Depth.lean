import SelectSyntax.Proofs.Run

/-!
Parsers that pay no regard to the depth of nesting: they do the same at any depth, and end where they started.
-/

set_option autoImplicit false
set_option relaxedAutoImplicit false

namespace SelectSyntax.Parse

open Token (Kind)

namespace State

def atDepth (s : State) (depth : Nat) : State := { s with depth := depth }

@[simp] theorem kind_atDepth (s : State) (d : Nat) : (s.atDepth d).kind = s.kind := rfl

@[simp] theorem advance_atDepth (s : State) (d : Nat) : (s.atDepth d).advance = s.advance.atDepth d := rfl

end State

def outcomeAt {α : Type} (r : EStateM.Result Failure State α) (depth : Nat) : EStateM.Result Failure State α :=
  match r with
  | .ok a t => .ok a (t.atDepth depth)
  | .error e t => .error e (t.atDepth depth)

/-- A parser that does the same at any depth and stays at that depth. -/
def Oblivious {α : Type} (p : Parser α) : Prop :=
  ∀ s d, p (s.atDepth d) = outcomeAt (p s) d

namespace Oblivious

variable {α β : Type} {p q : Parser α} {f : α → Parser β} {s t : State}

theorem of_ok (h : Oblivious p) {a : α} (run : p s = .ok a t) (d : Nat) :
    p (s.atDepth d) = .ok a (t.atDepth d) := by
  rw [h, run]
  rfl

theorem of_error (h : Oblivious p) {e : Failure} (run : p s = .error e t) (d : Nat) :
    p (s.atDepth d) = .error e (t.atDepth d) := by
  rw [h, run]
  rfl

theorem bind (first : Oblivious p) (rest : ∀ a, Oblivious (f a)) : Oblivious (p >>= f) := by
  intro s d
  cases run : p s with
  | ok a t => rw [bind_of_ok (first.of_ok run d), bind_of_ok run, rest a t d]
  | error e t =>
      rw [bind_of_error (first.of_error run d), bind_of_error run]
      rfl

theorem map {g : α → β} (h : Oblivious p) : Oblivious (g <$> p) := by
  rw [map_eq_pure_bind]
  exact h.bind fun _ _ _ => rfl

theorem prefer (first : Oblivious p) (second : Oblivious q) : Oblivious (prefer p q) := by
  intro s d
  cases run : p s with
  | ok a t =>
      rw [prefer_of_ok (first.of_ok run d), prefer_of_ok run]
      rfl
  | error e t =>
      have rewound : (t.atDepth d).restore (s.atDepth d).checkpoint = (t.restore s.checkpoint).atDepth d := rfl
      simp only [Parse.prefer, first.of_error run d, run, rewound, second (t.restore s.checkpoint) d]
      cases q (t.restore s.checkpoint) <;> rfl

end Oblivious

theorem eat_oblivious (k : Kind) : Oblivious (eat k) := by
  intro s d
  by_cases h : s.kind = k
  · rw [eat_of_kind (s.kind_atDepth d ▸ h), eat_of_kind h]
    rfl
  · rw [eat_of_ne (s.kind_atDepth d ▸ h), eat_of_ne h]
    rfl

theorem expect_oblivious (k : Kind) : Oblivious (expect k) := by
  intro s d
  by_cases h : s.kind = k
  · rw [expect_of_kind (s.kind_atDepth d ▸ h), expect_of_kind h]
    rfl
  · rw [expect_of_ne (s.kind_atDepth d ▸ h), expect_of_ne h]
    rfl

theorem take?_oblivious {α : Type} (read : Kind → Option α) : Oblivious (take? read) := by
  intro s d
  simp only [take?, State.kind_atDepth]
  cases read s.kind <;> rfl

theorem identifier?_oblivious : Oblivious identifier? := by
  intro s d
  by_cases h : s.kind = .identifier <;> simp only [identifier?, State.kind_atDepth, h] <;> rfl

theorem isNull?_oblivious : Oblivious isNull? := by
  intro s d
  rw [isNull?_run, isNull?_run]
  simp only [State.kind_atDepth, State.advance_atDepth]
  by_cases is : s.kind = .keyword .IS
  · by_cases not : s.advance.kind = .keyword .NOT
    · by_cases null : s.advance.advance.kind = .keyword .NULL <;> simp [is, not, null, outcomeAt]
    · by_cases null : s.advance.kind = .keyword .NULL <;> simp [is, not, null, outcomeAt]
  · simp [is, outcomeAt]

theorem Oblivious.closed {α : Type} {p : Parser α} (h : Oblivious p) : Oblivious (closed p) :=
  h.bind fun _ => (expect_oblivious _).bind fun _ _ _ => rfl

theorem Oblivious.parenthesized {α : Type} {query : Parser SyntaxTree.Statement} {other : Parser α}
    (first : Oblivious query) (second : Oblivious other) : Oblivious (parenthesized query other) := by
  refine (expect_oblivious _).bind fun _ => ?_
  have kind : Oblivious kind := fun _ _ => rfl
  refine kind.bind fun k => ?_
  split
  · exact .prefer first.closed.map second.closed.map
  · exact second.closed.map

end SelectSyntax.Parse
