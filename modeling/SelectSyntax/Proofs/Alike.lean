import SelectSyntax.Proofs.Depth

/-!
Parsers that run side by side. Two parsers are alike when they are built in the same way from the same
steps and differ only in parsers of constructs that they call after a token has been taken. What holds
of two runs of such parsers is proved once, by induction on how the parsers are built.
-/

set_option autoImplicit false
set_option relaxedAutoImplicit false

namespace SelectSyntax.Parse

open Token (Kind)

/-- A parser that takes no construct: it pays no regard to the depth, stays among the tokens, fails only
because of a token that it has not gone past, and has taken one where its value says so. -/
structure Step {α : Type} (p : Parser α) (taken : α → Bool) : Prop where
  oblivious : Oblivious p
  stays : ∀ s : State, s.Complete →
    match p s with
    | .ok a t => t.Within s ∧ (taken a = true → t.remaining < s.remaining)
    | .error f t => f.cursor.Within t.cursor ∧ t.Within s ∧ ¬f.TooDeep

abbrev Pairs := (α : Type) → Parser α → Parser α → Prop

/-- Parsers built in the same way. The pairs of `held` are called only after a token has been taken,
those of `free` anywhere. The flag says whether a token has been taken already; the kind, if there is
one, is that of the current token. -/
inductive Alike (free held : Pairs) :
    {α : Type} → Bool → Option Kind → Parser α → Parser α → Prop
  | pure {α : Type} {taken : Bool} {known : Option Kind} (a : α) :
      Alike free held taken known (pure a) (pure a)
  | fail {α : Type} {taken : Bool} {known : Option Kind} {cause : Cause}
      (shallow : ∀ limit, cause ≠ .tooDeep limit) :
      Alike free held taken known (fail cause : Parser α) (fail cause)
  | step {α β : Type} {taken : Bool} {known : Option Kind} {p : Parser α} {takes : α → Bool}
      {f f' : α → Parser β} (plain : Step p takes)
      (rest : ∀ a, Alike free held (taken || takes a) none (f a) (f' a)) :
      Alike free held taken known (p >>= f) (p >>= f')
  | look {α β : Type} {taken : Bool} {known : Option Kind} (read : Token → α)
      {f f' : α → Parser β}
      (rest : ∀ t : Token, Alike free held taken (some t.kind) (f (read t)) (f' (read t))) :
      Alike free held taken known ((fun s => .ok (read s.token) s : Parser α) >>= f)
        ((fun s => .ok (read s.token) s : Parser α) >>= f')
  | advance {β : Type} {taken : Bool} {k : Kind} {p p' : Parser β}
      (live : k.isTerminal = false) (rest : Alike free held true none p p') :
      Alike free held taken (some k) (advance >>= fun _ => p) (advance >>= fun _ => p')
  | bind {α β : Type} {taken : Bool} {known : Option Kind} {p p' : Parser α}
      {f f' : α → Parser β} (first : Alike free held taken known p p')
      (rest : ∀ a, Alike free held taken none (f a) (f' a)) :
      Alike free held taken known (p >>= f) (p' >>= f')
  | sized {α : Type} {taken : Bool} {known : Option Kind} {f f' : Nat → Parser α}
      (body : ∀ n, Alike free held taken known (f n) (f' n)) :
      Alike free held taken known (fun s => f s.cursor.remaining s)
        (fun s => f' s.cursor.remaining s)
  | held {α : Type} {known : Option Kind} {p p' : Parser α} (pair : held α p p') :
      Alike free held true known p p'
  | free {α : Type} {taken : Bool} {known : Option Kind} {p p' : Parser α} (pair : free α p p') :
      Alike free held taken known p p'

namespace Alike

variable {free held : Pairs} {α β : Type} {taken : Bool} {known : Option Kind}

theorem monotone {before : Bool} {less : Option Kind} {p p' : Parser α}
    (h : Alike free held before less p p') (more : before = true → taken = true)
    (same : less = none ∨ less = known) : Alike free held taken known p p' := by
  induction h generalizing taken known with
  | pure a => exact .pure a
  | fail shallow => exact .fail shallow
  | step plain _ ih => exact .step plain fun a => ih a (by simp; grind) (Or.inl rfl)
  | look read _ ih => exact .look read fun t => ih t more (Or.inr rfl)
  | advance live _ ih =>
      rcases same with same | rfl
      · cases same
      · exact .advance live (ih (by simp) (Or.inl rfl))
  | bind _ _ first rest => exact .bind (first more same) fun a => rest a more (Or.inl rfl)
  | sized _ ih => exact .sized fun n => ih n more same
  | held pair =>
      rw [more rfl]
      exact .held pair
  | free pair => exact .free pair

theorem weaken {p p' : Parser α} (h : Alike free held false none p p') :
    Alike free held taken known p p' :=
  h.monotone (by simp) (Or.inl rfl)

theorem atToken {p p' : Parser α} (h : Alike free held taken none p p') :
    Alike free held taken known p p' :=
  h.monotone id (Or.inl rfl)

theorem unexpected (expected : List Kind) :
    Alike free held taken known (unexpected expected : Parser α) (Parse.unexpected expected) :=
  .fail (by simp)

theorem ofStep {p : Parser α} {takes : α → Bool} (plain : Step p takes) :
    Alike free held taken known p p := by
  rw [← bind_pure p]
  exact .step plain fun a => .pure a

theorem map (f : α → β) {p p' : Parser α} (h : Alike free held taken known p p') :
    Alike free held taken known (f <$> p) (f <$> p') := by
  rw [map_eq_pure_bind, map_eq_pure_bind]
  exact .bind h fun a => .pure (f a)

end Alike

theorem eat_step {k : Kind} (live : k.isTerminal = false) : Step (eat k) id := by
  refine ⟨eat_oblivious k, fun s complete => ?_⟩
  unfold eat
  by_cases h : s.kind = k
  · simp only [h, if_true]
    exact ⟨s.advance_within, fun _ => complete.remaining_advance (h ▸ live)⟩
  · simp only [h, if_false]
    exact ⟨.refl s, by simp⟩

theorem expect_step {k : Kind} (live : k.isTerminal = false) : Step (expect k) fun _ => true := by
  refine ⟨expect_oblivious k, fun s complete => ?_⟩
  unfold expect
  by_cases h : s.kind = k
  · simp only [h, if_true]
    exact ⟨s.advance_within, fun _ => complete.remaining_advance (h ▸ live)⟩
  · simp only [h, if_false]
    exact ⟨Cursor.Within.refl _, .refl s, by rintro ⟨_, h⟩; cases h⟩

theorem take?_step {α : Type} {read : Kind → Option α}
    (live : ∀ k a, read k = some a → k.isTerminal = false) : Step (take? read) Option.isSome := by
  refine ⟨take?_oblivious read, fun s complete => ?_⟩
  unfold take?
  cases h : read s.kind with
  | none => exact ⟨.refl s, by simp⟩
  | some a => exact ⟨s.advance_within, fun _ => complete.remaining_advance (live _ _ h)⟩

theorem identifier?_step : Step identifier? Option.isSome := by
  refine ⟨identifier?_oblivious, fun s complete => ?_⟩
  unfold identifier?
  by_cases h : s.kind = .identifier
  · simp only [h, if_true]
    exact ⟨s.advance_within, fun _ => complete.remaining_advance (by rw [h]; rfl)⟩
  · simp only [h, if_false]
    exact ⟨.refl s, by simp⟩

theorem advance_step : Step advance fun _ => false :=
  ⟨fun _ _ => rfl, fun s _ => ⟨s.advance_within, by simp⟩⟩

theorem parameter_step : Step parameter fun _ => false :=
  ⟨fun _ _ => rfl, fun s _ => ⟨s.advance_within.numbered _, by simp⟩⟩

theorem isNull?_step : Step isNull? fun _ => false := by
  refine ⟨isNull?_oblivious, fun s complete => ?_⟩
  have second := s.advance.advance_within.trans s.advance_within
  have third := s.advance.advance.advance_within.trans second
  rw [isNull?_run]
  by_cases is : s.kind = .keyword .IS
  · by_cases not : s.advance.kind = .keyword .NOT
    · by_cases null : s.advance.advance.kind = .keyword .NULL
      · simpa [is, not, null] using third
      · simp [is, not, null, State.Within.refl]
    · by_cases null : s.advance.kind = .keyword .NULL
      · simpa [is, not, null] using second
      · simp [is, not, null, State.Within.refl]
  · simp [is, State.Within.refl]

/-- A parser that stays among the tokens ahead of it, and that has not gone past the token it fails at. -/
def Forward {α : Type} (p : Parser α) : Prop :=
  ∀ s : State, s.Complete →
    match p s with
    | .ok _ t => t.Within s
    | .error f t => f.cursor.Within t.cursor ∧ t.Within s

section
variable {α β : Type} {p : Parser α} {f : α → Parser β} {s t : State}

theorem Forward.of_ok (h : Forward p) (complete : s.Complete) {a : α} (run : p s = .ok a t) :
    t.Within s := by
  simpa only [run] using h s complete

theorem Forward.failure_within (h : Forward p) (complete : s.Complete) {e : Failure}
    (run : p s = .error e t) : e.cursor.Within t.cursor ∧ t.Within s := by
  simpa only [run] using h s complete

theorem Forward.of_error (h : Forward p) (complete : s.Complete) {e : Failure}
    (run : p s = .error e t) : e.cursor.Within s.cursor ∧ t.Within s := by
  obtain ⟨failure, within⟩ := h.failure_within complete run
  exact ⟨failure.trans within.cursor, within⟩

theorem Forward.returns (h : Forward p) (complete : s.Complete) : Returns p s :=
  fun _ _ run => (h.failure_within complete run).2

theorem Forward.intro (ok : ∀ s a t, s.Complete → p s = .ok a t → t.Within s)
    (error : ∀ s e t, s.Complete → p s = .error e t → e.cursor.Within t.cursor ∧ t.Within s) :
    Forward p := by
  intro s complete
  cases run : p s with
  | ok a t => exact ok s a t complete run
  | error e t => exact error s e t complete run

theorem Step.forward {takes : α → Bool} (h : Step p takes) : Forward p := by
  intro s complete
  have step := h.stays s complete
  cases run : p s with
  | ok a t => simp only [run] at step; exact step.1
  | error e t => simp only [run] at step; exact ⟨step.1, step.2.1⟩

theorem Forward.bind (first : Forward p) (rest : ∀ a, Forward (f a)) : Forward (p >>= f) := by
  refine .intro (fun s b u complete run => ?_) (fun s e u complete run => ?_)
  · obtain ⟨a, t, run₁, run₂⟩ := bind_eq_ok.mp run
    have within := first.of_ok complete run₁
    exact ((rest a).of_ok (within.complete complete) run₂).trans within
  · rcases bind_eq_error.mp run with run | ⟨a, t, run₁, run₂⟩
    · exact first.failure_within complete run
    · have within := first.of_ok complete run₁
      have later := (rest a).failure_within (within.complete complete) run₂
      exact ⟨later.1, later.2.trans within⟩

end

namespace Alike

variable {free held : Pairs} {α : Type} {taken : Bool} {known : Option Kind} {p p' : Parser α}

/-- Parsers pay no regard to the depth if the constructs that they call do not. -/
theorem oblivious (freely : ∀ α p p', free α p p' → Oblivious p)
    (inside : ∀ α p p', held α p p' → Oblivious p) (h : Alike free held taken known p p') :
    Oblivious p := by
  induction h with
  | pure a => exact fun _ _ => rfl
  | fail _ => exact fun _ _ => rfl
  | step plain _ ih => exact plain.oblivious.bind ih
  | look read _ ih => exact fun s d => ih s.token s d
  | advance _ _ ih => exact advance_step.oblivious.bind fun _ => ih
  | bind _ _ first rest => exact first.bind rest
  | sized _ ih => exact fun s d => ih s.cursor.remaining s d
  | held pair => exact inside _ _ _ pair
  | free pair => exact freely _ _ _ pair

theorem forward (freely : ∀ α p p', free α p p' → Forward p)
    (inside : ∀ α p p', held α p p' → Forward p) (h : Alike free held taken known p p') :
    Forward p := by
  induction h with
  | pure a => exact fun s _ => .refl s
  | fail _ => exact fun s _ => ⟨.refl _, .refl s⟩
  | step plain _ ih => exact plain.forward.bind ih
  | look read _ ih =>
      intro s complete
      exact ih s.token s complete
  | advance _ _ ih => exact advance_step.forward.bind fun _ => ih
  | bind _ _ first rest => exact first.bind rest
  | sized _ ih =>
      intro s complete
      exact ih s.cursor.remaining s complete
  | held pair => exact inside _ _ _ pair
  | free pair => exact freely _ _ _ pair

/-- Parsers fail in no bad way if the constructs that they call do not, where being bad means a
certain way of being too deep. -/
theorem avoids (bad : Failure → Prop) (bound : Nat) (deep : ∀ f, bad f → f.TooDeep)
    (freely : ∀ α p p', free α p p' → Forward p ∧ ∀ s : State, s.Complete →
      s.remaining ≤ bound → ∀ f t, p s = .error f t → ¬bad f)
    (inside : ∀ α p p', held α p p' → Forward p ∧ ∀ s : State, s.Complete →
      s.remaining < bound → ∀ f t, p s = .error f t → ¬bad f)
    (h : Alike free held taken known p p') (s : State) (complete : s.Complete)
    (le : s.remaining ≤ bound) (lt : taken = true → s.remaining < bound)
    (current : ∀ k, known = some k → s.kind = k) (f : Failure) (t : State)
    (run : p s = .error f t) : ¬bad f := by
  have forward : ∀ {α : Type} {g : Bool} {k : Option Kind} {p p' : Parser α},
      Alike free held g k p p' → Forward p :=
    Alike.forward (fun α p p' pair => (freely α p p' pair).1)
      (fun α p p' pair => (inside α p p' pair).1)
  induction h generalizing s f t with
  | pure a => cases run
  | fail shallow =>
      cases run
      intro isBad
      obtain ⟨limit, cause⟩ := deep _ isBad
      exact shallow limit cause
  | step plain _ ih =>
      have step := plain.stays s complete
      rcases bind_eq_error.mp run with run | ⟨a, u, run₁, run₂⟩
      · simp only [run] at step
        exact fun isBad => step.2.2 (deep _ isBad)
      · simp only [run₁] at step
        have within := step.1.remaining_le
        refine ih a u (step.1.complete complete) (by omega) (fun took => ?_) (by simp) f t run₂
        rcases Bool.or_eq_true _ _ ▸ took with took | took
        · exact Nat.lt_of_le_of_lt within (lt took)
        · exact Nat.lt_of_lt_of_le (step.2 took) le
  | look read _ ih => exact ih s.token s complete le lt (by simp [State.kind]) f t run
  | @advance _ _ k _ _ live _ ih =>
      have ahead : Parse.advance s = .ok () s.advance := rfl
      rw [bind_of_ok ahead] at run
      have less := complete.remaining_advance (current k rfl ▸ live)
      exact ih s.advance (s.advance_within.complete complete) (by omega) (fun _ => by omega)
        (by simp) f t run
  | bind first _ ih₁ ih₂ =>
      rcases bind_eq_error.mp run with run | ⟨a, u, run₁, run₂⟩
      · exact ih₁ s complete le lt current f t run
      · have within := (forward first).of_ok complete run₁
        have fewer := within.remaining_le
        exact ih₂ a u (within.complete complete) (by omega)
          (fun took => Nat.lt_of_le_of_lt fewer (lt took)) (by simp) f t run₂
  | sized _ ih => exact ih _ s complete le lt current f t run
  | held pair => exact (inside _ _ _ pair).2 s complete (lt rfl) f t run
  | free pair => exact (freely _ _ _ pair).2 s complete le f t run

end Alike

/-- The first run fails in a bad way, or both runs are the same. -/
def Agree {α : Type} (bad : Failure → Prop) (r r' : EStateM.Result Failure State α) : Prop :=
  (∃ f t, r = .error f t ∧ bad f) ∨ r = r'

theorem Agree.bind {α β : Type} {bad : Failure → Prop} {p p' : Parser α} {f f' : α → Parser β}
    {s : State} (first : Agree bad (p s) (p' s))
    (rest : ∀ a t, p s = .ok a t → Agree bad (f a t) (f' a t)) :
    Agree bad ((p >>= f) s) ((p' >>= f') s) := by
  rcases first with ⟨e, t, run, isBad⟩ | same
  · exact Or.inl ⟨e, t, bind_of_error run, isBad⟩
  · cases run : p s with
    | ok a t =>
        rw [bind_of_ok run, bind_of_ok (same ▸ run)]
        exact rest a t run
    | error e t =>
        rw [bind_of_error run, bind_of_error (same ▸ run)]
        exact Or.inr rfl

/-- Parsers agree at a depth where the constructs that they call agree at that depth. -/
theorem Alike.agree {free held : Pairs} {α : Type} {taken : Bool} {known : Option Kind}
    {p p' : Parser α} (bad : Failure → Prop) (bound : Nat) (s : State)
    (freely : ∀ α p p', free α p p' → Forward p ∧ ∀ t : State, t.Complete →
      t.remaining ≤ bound → t.depth = s.depth → Agree bad (p t) (p' t))
    (inside : ∀ α p p', held α p p' → Forward p ∧ ∀ t : State, t.Complete →
      t.remaining < bound → t.depth = s.depth → Agree bad (p t) (p' t))
    (h : Alike free held taken known p p') (complete : s.Complete)
    (le : s.remaining ≤ bound) (lt : taken = true → s.remaining < bound)
    (current : ∀ k, known = some k → s.kind = k) : Agree bad (p s) (p' s) := by
  have forward : ∀ {α : Type} {g : Bool} {k : Option Kind} {p p' : Parser α},
      Alike free held g k p p' → Forward p :=
    Alike.forward (fun α p p' pair => (freely α p p' pair).1)
      (fun α p p' pair => (inside α p p' pair).1)
  induction h generalizing s with
  | pure a => exact Or.inr rfl
  | fail _ => exact Or.inr rfl
  | step plain _ ih =>
      refine Agree.bind (Or.inr rfl) fun a t run => ?_
      have step := plain.stays s complete
      simp only [run] at step
      have within := step.1.remaining_le
      have still := step.1.depth
      refine ih a t (still ▸ freely) (still ▸ inside) (step.1.complete complete) (by omega) (fun took => ?_)
        (by simp)
      rcases Bool.or_eq_true _ _ ▸ took with took | took
      · exact Nat.lt_of_le_of_lt within (lt took)
      · exact Nat.lt_of_lt_of_le (step.2 took) le
  | look read _ ih => exact ih s.token s freely inside complete le lt (by simp [State.kind])
  | @advance _ _ k _ _ live _ ih =>
      have less := complete.remaining_advance (current k rfl ▸ live)
      exact ih s.advance freely inside (s.advance_within.complete complete) (by omega) (fun _ => by omega)
        (by simp)
  | bind first _ ih₁ ih₂ =>
      refine Agree.bind (ih₁ s freely inside complete le lt current) fun a t run => ?_
      have within := (forward first).of_ok complete run
      have fewer := within.remaining_le
      have still := within.depth
      exact ih₂ a t (still ▸ freely) (still ▸ inside) (within.complete complete) (by omega)
        (fun took => Nat.lt_of_le_of_lt fewer (lt took)) (by simp)
  | sized _ ih => exact ih _ s freely inside complete le lt current
  | held pair => exact (inside _ _ _ pair).2 s complete (lt rfl) rfl
  | free pair => exact (freely _ _ _ pair).2 s complete le rfl

/-- Parsers do the same at a depth where the constructs that they call do the same at that depth. -/
theorem Alike.same {free held : Pairs} {α : Type} {p p' : Parser α} (s : State)
    (freely : ∀ α p p', free α p p' → Forward p ∧ ∀ t : State, t.Complete →
      t.remaining ≤ s.remaining → t.depth = s.depth → p t = p' t)
    (inside : ∀ α p p', held α p p' → Forward p ∧ ∀ t : State, t.Complete →
      t.remaining < s.remaining → t.depth = s.depth → p t = p' t)
    (h : Alike free held false none p p') (complete : s.Complete) : p s = p' s := by
  have agree := h.agree (fun _ => False) s.remaining s
    (fun α p p' pair => ⟨(freely α p p' pair).1, fun t within le depth =>
      Or.inr ((freely α p p' pair).2 t within le depth)⟩)
    (fun α p p' pair => ⟨(inside α p p' pair).1, fun t within less depth =>
      Or.inr ((inside α p p' pair).2 t within less depth)⟩)
    complete (Nat.le_refl _) (by simp) (by simp)
  exact agree.resolve_left fun ⟨_, _, _, no⟩ => no

end SelectSyntax.Parse
