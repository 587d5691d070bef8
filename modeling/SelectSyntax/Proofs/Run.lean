import SelectSyntax.Proofs.Cursor

/-!
Runs of parsers: what a sequence of two parsers does, and what the small steps do.
-/

set_option autoImplicit false
set_option relaxedAutoImplicit false

namespace SelectSyntax.Parse

open Token (Kind)
open SyntaxTree (BinaryOp Expr)

section
variable {α β : Type} {p : Parser α} {f : α → Parser β} {s t : State}

theorem bind_of_ok {a : α} (h : p s = .ok a t) : (p >>= f) s = f a t := by
  simp [bind, EStateM.bind, h]

theorem bind_of_error {e : Failure} (h : p s = .error e t) : (p >>= f) s = .error e t := by
  simp [bind, EStateM.bind, h]

theorem bind_eq_ok {b : β} :
    (p >>= f) s = .ok b t ↔ ∃ a u, p s = .ok a u ∧ f a u = .ok b t := by
  cases h : p s with
  | ok a u =>
      rw [bind_of_ok h]
      exact ⟨fun run => ⟨a, u, rfl, run⟩, by rintro ⟨_, _, ⟨rfl, rfl⟩, run⟩; exact run⟩
  | error e u => simp [bind_of_error h]

theorem bind_eq_error {e : Failure} :
    (p >>= f) s = .error e t ↔
      p s = .error e t ∨ ∃ a u, p s = .ok a u ∧ f a u = .error e t := by
  cases h : p s with
  | ok a u =>
      rw [bind_of_ok h]
      refine ⟨fun run => Or.inr ⟨a, u, rfl, run⟩, ?_⟩
      rintro (run | ⟨_, _, ⟨rfl, rfl⟩, run⟩)
      · cases run
      · exact run
  | error e u => simp [bind_of_error h]

theorem map_of_ok {g : α → β} {a : α} (h : p s = .ok a t) : (g <$> p) s = .ok (g a) t := by
  simp [Functor.map, EStateM.map, h]

theorem map_of_error {g : α → β} {e : Failure} (h : p s = .error e t) :
    (g <$> p) s = .error e t := by
  simp [Functor.map, EStateM.map, h]

theorem map_eq_ok {g : α → β} {b : β} :
    (g <$> p) s = .ok b t ↔ ∃ a, p s = .ok a t ∧ g a = b := by
  cases h : p s with
  | ok a u => simp only [map_of_ok h, EStateM.Result.ok.injEq]; grind
  | error e u => simp [map_of_error h]

theorem map_eq_error {g : α → β} {e : Failure} :
    (g <$> p) s = .error e t ↔ p s = .error e t := by
  cases h : p s with
  | ok a u => simp [map_of_ok h]
  | error e u => simp [map_of_error h]

end

theorem pure_run {α : Type} (a : α) (s : State) : (pure a : Parser α) s = .ok a s := rfl

theorem eat_of_kind {k : Kind} {s : State} (h : s.kind = k) : eat k s = .ok true s.advance := by
  simp [eat, h]

theorem eat_of_ne {k : Kind} {s : State} (h : s.kind ≠ k) : eat k s = .ok false s := by
  simp [eat, h]

theorem expect_of_kind {k : Kind} {s : State} (h : s.kind = k) :
    expect k s = .ok () s.advance := by
  simp [expect, h]

theorem expect_of_ne {k : Kind} {s : State} (h : s.kind ≠ k) :
    expect k s = .error ⟨.unexpected [k], s.cursor⟩ s := by
  simp [expect, h, unexpected, fail]

theorem expect_eq_ok {k : Kind} {s t : State} {u : Unit} :
    expect k s = .ok u t ↔ s.kind = k ∧ t = s.advance := by
  by_cases h : s.kind = k
  · simp [expect_of_kind h, h, eq_comm]
  · simp [expect_of_ne h, h]

theorem eat_eq_ok {k : Kind} {s t : State} {b : Bool} : eat k s = .ok b t ↔
    b = true ∧ s.kind = k ∧ t = s.advance ∨ b = false ∧ s.kind ≠ k ∧ t = s := by
  by_cases h : s.kind = k
  · simp [eat_of_kind h, h, eq_comm]
  · simp [eat_of_ne h, h, eq_comm]

theorem pure_eq_ok {α : Type} {a b : α} {s t : State} :
    (pure a : Parser α) s = .ok b t ↔ b = a ∧ t = s := by
  rw [pure_run, EStateM.Result.ok.injEq, eq_comm, @eq_comm _ s]

theorem kind_eq_ok {k : Kind} {s t : State} : kind s = .ok k t ↔ k = s.kind ∧ t = s := by
  simp [kind, eq_comm]

theorem advance_eq_ok {u : Unit} {s t : State} : advance s = .ok u t ↔ t = s.advance := by
  simp [advance, eq_comm]

theorem take?_eq_ok {α : Type} {read : Kind → Option α} {o : Option α} {s t : State} :
    take? read s = .ok o t ↔
      (∃ a, o = some a ∧ read s.kind = some a ∧ t = s.advance) ∨
        o = none ∧ read s.kind = none ∧ t = s := by
  unfold take?
  cases read s.kind with
  | none => simp [eq_comm]
  | some a =>
      constructor
      · rintro ⟨⟩
        exact Or.inl ⟨a, rfl, rfl, rfl⟩
      · rintro (⟨_, rfl, ⟨⟩, rfl⟩ | ⟨_, ⟨⟩, _⟩)
        rfl

theorem identifier?_eq_ok {o : Option String} {s t : State} : identifier? s = .ok o t ↔
    o = some s.token.value ∧ s.kind = .identifier ∧ t = s.advance ∨
      o = none ∧ s.kind ≠ .identifier ∧ t = s := by
  unfold identifier?
  by_cases h : s.kind = .identifier <;> simp [h, eq_comm]

theorem identifier_eq_ok {name : String} {s t : State} : identifier s = .ok name t ↔
    s.kind = .identifier ∧ name = s.token.value ∧ t = s.advance := by
  rw [identifier, bind_eq_ok]
  constructor
  · rintro ⟨o, u, run, rest⟩
    rcases identifier?_eq_ok.mp run with ⟨rfl, kind, rfl⟩ | ⟨rfl, _, rfl⟩
    · obtain ⟨rfl, rfl⟩ := pure_eq_ok.mp rest
      exact ⟨kind, rfl, rfl⟩
    · cases rest
  · rintro ⟨kind, rfl, rfl⟩
    exact ⟨_, _, identifier?_eq_ok.mpr (Or.inl ⟨rfl, kind, rfl⟩), rfl⟩

section
variable {α : Type} {p : Parser α} {s t : State}

theorem closed_of_kind {a : α} (read : p s = .ok a t) (closes : t.kind = .rightParen) :
    closed p s = .ok a t.advance := by
  rw [closed, bind_of_ok read, bind_of_ok (expect_of_kind closes)]
  rfl

theorem closed_of_ne {a : α} (read : p s = .ok a t) (open_ : t.kind ≠ .rightParen) :
    closed p s = .error ⟨.unexpected [.rightParen], t.cursor⟩ t := by
  rw [closed, bind_of_ok read, bind_of_error (expect_of_ne open_)]

theorem closed_of_error {e : Failure} (read : p s = .error e t) : closed p s = .error e t :=
  bind_of_error read

theorem closed_eq_ok {a : α} :
    closed p s = .ok a t ↔ ∃ u, p s = .ok a u ∧ u.kind = .rightParen ∧ t = u.advance := by
  refine ⟨fun run => ?_, fun ⟨u, read, closes, same⟩ => same ▸ closed_of_kind read closes⟩
  obtain ⟨b, u, read, run⟩ := bind_eq_ok.mp run
  obtain ⟨_, v, ends, run⟩ := bind_eq_ok.mp run
  obtain ⟨closes, rfl⟩ := expect_eq_ok.mp ends
  cases run
  exact ⟨u, read, closes, rfl⟩

theorem enclosed_of_kind (opens : s.kind = .leftParen) : enclosed p s = closed p s.advance :=
  bind_of_ok (expect_of_kind opens)

theorem enclosed_eq_ok {a : α} :
    enclosed p s = .ok a t ↔ s.kind = .leftParen ∧ closed p s.advance = .ok a t := by
  by_cases opens : s.kind = .leftParen
  · simp [enclosed_of_kind opens, opens]
  · simp [enclosed, bind_of_error (expect_of_ne opens), opens]

end

/-- Where a parser fails it ends at the depth where it started. -/
def Returns {α : Type} (p : Parser α) (s : State) : Prop :=
  ∀ e u, p s = .error e u → u.Within s

section
variable {α β : Type} {p q : Parser α} {s t : State}

theorem Returns.map {f : α → β} (h : Returns p s) : Returns (f <$> p) s :=
  fun e u run => h e u (map_eq_error.mp run)

theorem prefer_of_ok {a : α} (h : p s = .ok a t) : prefer p q s = .ok a t := by
  simp [prefer, h]

theorem prefer_of_second {e : Failure} {u : State} {a : α} (returns : Returns p s)
    (first : p s = .error e u) (second : q s = .ok a t) : prefer p q s = .ok a t := by
  simp only [prefer, first, (returns e u first).restore, second]

theorem prefer_of_errors {e f : Failure} {u : State} (returns : Returns p s)
    (first : p s = .error e u) (second : q s = .error f t) :
    prefer p q s = .error (e.further f) t := by
  simp only [prefer, first, (returns e u first).restore, second]

theorem prefer_eq_ok {a : α} (returns : Returns p s) (h : prefer p q s = .ok a t) :
    p s = .ok a t ∨ (∃ e u, p s = .error e u) ∧ q s = .ok a t := by
  cases first : p s with
  | ok b u =>
      rw [prefer_of_ok first] at h
      exact Or.inl h
  | error e u =>
      cases second : q s with
      | ok b v => exact Or.inr ⟨⟨e, u, rfl⟩, by rwa [prefer_of_second returns first second] at h⟩
      | error f v => rw [prefer_of_errors returns first second] at h; cases h

theorem prefer_eq_error {e : Failure} (returns : Returns p s) (h : prefer p q s = .error e t) :
    ∃ f u g, p s = .error f u ∧ q s = .error g t ∧ e = f.further g := by
  cases first : p s with
  | ok b u => rw [prefer_of_ok first] at h; cases h
  | error f u =>
      cases second : q s with
      | ok b v => rw [prefer_of_second returns first second] at h; cases h
      | error g v =>
          rw [prefer_of_errors returns first second] at h
          cases h
          exact ⟨f, u, g, rfl, rfl, rfl⟩

theorem parenthesized_of_kind {query : Parser SyntaxTree.Statement} {other : Parser β}
    (h : s.kind = .leftParen) :
    parenthesized query other s =
      if startsQuery s.advance.kind then
        prefer (Sum.inl <$> closed query) (Sum.inr <$> closed other) s.advance
      else (Sum.inr <$> closed other : Parser (SyntaxTree.Statement ⊕ β)) s.advance := by
  rw [parenthesized, bind_of_ok (expect_of_kind h)]
  simp only [bind, EStateM.bind, kind]
  split <;> rfl

theorem parenthesized_of_query {query : Parser SyntaxTree.Statement} {other : Parser β}
    {q : SyntaxTree.Statement} (h : s.kind = .leftParen) (starts : startsQuery s.advance.kind = true)
    (first : closed query s.advance = .ok q t) : parenthesized query other s = .ok (.inl q) t := by
  rw [parenthesized_of_kind h, if_pos starts]
  exact prefer_of_ok (map_of_ok first)

theorem parenthesized_of_other {query : Parser SyntaxTree.Statement} {other : Parser β} {b : β}
    {f : Failure} {u : State} (returns : Returns (closed query) s.advance) (h : s.kind = .leftParen)
    (starts : startsQuery s.advance.kind = true) (first : closed query s.advance = .error f u)
    (second : closed other s.advance = .ok b t) : parenthesized query other s = .ok (.inr b) t := by
  rw [parenthesized_of_kind h, if_pos starts]
  exact prefer_of_second returns.map (map_of_error first) (map_of_ok second)

theorem parenthesized_of_errors {query : Parser SyntaxTree.Statement} {other : Parser β}
    {f g : Failure} {u : State} (returns : Returns (closed query) s.advance) (h : s.kind = .leftParen)
    (starts : startsQuery s.advance.kind = true) (first : closed query s.advance = .error f u)
    (second : closed other s.advance = .error g t) :
    parenthesized query other s = .error (f.further g) t := by
  rw [parenthesized_of_kind h, if_pos starts]
  exact prefer_of_errors returns.map (map_of_error first) (map_of_error second)

theorem parenthesized_of_no_query {query : Parser SyntaxTree.Statement} {other : Parser β}
    (h : s.kind = .leftParen) (starts : startsQuery s.advance.kind = false) :
    parenthesized query other s =
      (Sum.inr <$> closed other : Parser (SyntaxTree.Statement ⊕ β)) s.advance := by
  rw [parenthesized_of_kind h, if_neg (by simp [starts])]

theorem parenthesized_of_ne {query : Parser SyntaxTree.Statement} {other : Parser β}
    (h : s.kind ≠ .leftParen) :
    parenthesized query other s = .error ⟨.unexpected [.leftParen], s.cursor⟩ s := by
  rw [parenthesized, bind_of_error (expect_of_ne h)]

/-- What is read between parentheses is a query, or it is something else that is no query. -/
theorem parenthesized_eq_ok {query : Parser SyntaxTree.Statement} {other : Parser β}
    {x : SyntaxTree.Statement ⊕ β} (returns : Returns (closed query) s.advance)
    (run : parenthesized query other s = .ok x t) :
    s.kind = .leftParen ∧
      ((∃ q, x = .inl q ∧ startsQuery s.advance.kind = true ∧ closed query s.advance = .ok q t) ∨
        ∃ b, x = .inr b ∧ closed other s.advance = .ok b t ∧
          (startsQuery s.advance.kind = true → ∃ f u, closed query s.advance = .error f u)) := by
  by_cases opens : s.kind = .leftParen
  · refine ⟨opens, ?_⟩
    rw [parenthesized_of_kind opens] at run
    split at run
    · rename_i starts
      rcases prefer_eq_ok returns.map run with first | ⟨⟨f, u, first⟩, second⟩
      · obtain ⟨q, read, rfl⟩ := map_eq_ok.mp first
        exact Or.inl ⟨q, rfl, starts, read⟩
      · obtain ⟨b, read, rfl⟩ := map_eq_ok.mp second
        exact Or.inr ⟨b, rfl, read, fun _ => ⟨f, u, map_eq_error.mp first⟩⟩
    · rename_i starts
      obtain ⟨b, read, rfl⟩ := map_eq_ok.mp run
      exact Or.inr ⟨b, rfl, read, fun h => absurd h starts⟩
  · rw [parenthesized_of_ne opens] at run
    cases run

end

/-- Two tokens further, or three, the word `NULL` after `IS` and an optional `NOT` is taken; nothing
is taken otherwise. -/
theorem isNull?_run (s : State) :
    isNull? s =
      if s.kind = .keyword .IS then
        let negated := decide (s.advance.kind = .keyword .NOT)
        let t := if negated then s.advance.advance else s.advance
        if t.kind = .keyword .NULL then .ok (some negated) t.advance else .ok none s
      else .ok none s := by
  have saved : checkpoint s = .ok s.checkpoint s := rfl
  have restored : ∀ t : State, t.depth = s.depth → restore s.checkpoint t = .ok () s :=
    fun t depth => congrArg (EStateM.Result.ok ()) (State.restore_of_depth depth)
  rw [isNull?, bind_of_ok saved]
  by_cases is : s.kind = .keyword .IS
  · rw [bind_of_ok (eat_of_kind is), if_pos is, if_pos rfl]
    by_cases not : s.advance.kind = .keyword .NOT
    · rw [bind_of_ok (eat_of_kind not)]
      by_cases null : s.advance.advance.kind = .keyword .NULL
      · rw [bind_of_ok (eat_of_kind null)]
        simp [not, null, pure_run]
      · rw [bind_of_ok (eat_of_ne null)]
        simp [bind_of_ok (restored s.advance.advance rfl), not, null, pure_run]
    · rw [bind_of_ok (eat_of_ne not)]
      by_cases null : s.advance.kind = .keyword .NULL
      · rw [bind_of_ok (eat_of_kind null)]
        simp [null, pure_run]
      · rw [bind_of_ok (eat_of_ne null)]
        simp [bind_of_ok (restored s.advance rfl), not, null, pure_run]
  · rw [bind_of_ok (eat_of_ne is)]
    simp [is, pure_run]

theorem isNull?_ne_error {s t : State} {f : Failure} : isNull? s ≠ .error f t := by
  intro run
  rw [isNull?_run] at run
  dsimp only at run
  split at run
  · split at run
    · split at run <;> cases run
    · split at run <;> cases run
  · cases run

theorem isNull?_eq_ok {s t : State} {o : Option Bool} (run : isNull? s = .ok o t) :
    (∃ negated m, o = some negated ∧ s.kind = .keyword .IS ∧
      (negated = true ∧ s.advance.kind = .keyword .NOT ∧ m = s.advance.advance ∨
        negated = false ∧ m = s.advance) ∧ m.kind = .keyword .NULL ∧ t = m.advance) ∨
      o = none ∧ t = s := by
  rw [isNull?_run] at run
  by_cases is : s.kind = .keyword .IS
  · by_cases not : s.advance.kind = .keyword .NOT
    · by_cases null : s.advance.advance.kind = .keyword .NULL
      · simp only [is, not, null, if_true, decide_true] at run
        cases run
        exact Or.inl ⟨true, _, rfl, is, Or.inl ⟨rfl, not, rfl⟩, null, rfl⟩
      · simp only [is, not, null, if_true, if_false, decide_true] at run
        cases run
        exact Or.inr ⟨rfl, rfl⟩
    · by_cases null : s.advance.kind = .keyword .NULL
      · simp [is, null] at run
        exact Or.inl ⟨false, _, run.1.symm, is, Or.inr ⟨rfl, rfl⟩, null, run.2.symm⟩
      · simp [is, not, null] at run
        exact Or.inr ⟨run.1.symm, run.2.symm⟩
  · rw [if_neg is] at run
    cases run
    exact Or.inr ⟨rfl, rfl⟩

section
variable {i : Inner} {left e : Expr} {s m t : State}

/-- A predicate that starts like a row goes on with a row and what follows it. -/
theorem predicate_run (start : s.kind ∈ rowStart) :
    predicate i s = (row i >>= fun left => take? BinaryOp.comparison? >>= fun op =>
      match op with
      | some op => comparisonEnd i left op
      | none => predicateEnd i left) s := by
  have other : s.kind ≠ .keyword .EXISTS := by
    intro same
    simp [same, rowStart] at start
  have starts : rowStart.contains s.kind = true := by simpa using start
  rw [predicate, bind_of_ok (eat_of_ne other)]
  simp only [Bool.false_eq_true, if_false]
  rw [bind_of_ok (kind_eq_ok.mpr ⟨rfl, rfl⟩)]
  exact congrFun (if_pos starts) s

theorem predicate_of_comparison {op : BinaryOp} (start : s.kind ∈ rowStart) (first : row i s = .ok left m)
    (value : BinaryOp.comparison? m.kind = some op) (run : comparisonEnd i left op m.advance = .ok e t) :
    predicate i s = .ok e t := by
  rw [predicate_run start, bind_of_ok first,
    bind_of_ok (take?_eq_ok.mpr (Or.inl ⟨op, rfl, value, rfl⟩))]
  exact run

theorem predicate_of_end (start : s.kind ∈ rowStart) (first : row i s = .ok left m)
    (missing : BinaryOp.comparison? m.kind = none) (run : predicateEnd i left m = .ok e t) :
    predicate i s = .ok e t := by
  rw [predicate_run start, bind_of_ok first,
    bind_of_ok (take?_eq_ok.mpr (Or.inr ⟨rfl, missing, rfl⟩))]
  exact run

end

/-- A whole statement is a query, with a semicolon taken if there is one, and the end where it is required. -/
theorem wholeStatement_eq_ok {requireEnd : Bool} {i : Inner} {a : SyntaxTree.Statement} {s t : State} :
    wholeStatement requireEnd i s = .ok a t ↔ ∃ m, i .query s = .ok a m ∧
      (m.kind = .semicolon ∧ t = m.advance ∨ m.kind ≠ .semicolon ∧ t = m) ∧
      (requireEnd = true → t.kind = .eof) := by
  constructor
  · intro run
    obtain ⟨q, m, first, rest⟩ := bind_eq_ok.mp run
    obtain ⟨b, u, taken, rest⟩ := bind_eq_ok.mp rest
    obtain ⟨k, v, looked, last⟩ := bind_eq_ok.mp rest
    obtain ⟨rfl, rfl⟩ := kind_eq_ok.mp looked
    split at last
    · cases last
    · rename_i ends
      obtain ⟨rfl, rfl⟩ := pure_eq_ok.mp last
      refine ⟨m, first, ?_, by simpa using ends⟩
      rcases eat_eq_ok.mp taken with ⟨_, kind, rfl⟩ | ⟨_, kind, rfl⟩
      · exact Or.inl ⟨kind, rfl⟩
      · exact Or.inr ⟨kind, rfl⟩
  · rintro ⟨m, first, semicolon, ends⟩
    have rest : (do
        let k ← kind
        if requireEnd && k != .eof then unexpected [.eof] else pure a : Parser SyntaxTree.Statement) t =
          .ok a t := by
      refine bind_eq_ok.mpr ⟨t.kind, t, rfl, ?_⟩
      rw [if_neg (by simpa using ends)]
      rfl
    rcases semicolon with ⟨kind, rfl⟩ | ⟨kind, rfl⟩
    · exact bind_eq_ok.mpr ⟨a, m, first, bind_eq_ok.mpr ⟨true, _, eat_of_kind kind, rest⟩⟩
    · exact bind_eq_ok.mpr ⟨a, t, first, bind_eq_ok.mpr ⟨false, _, eat_of_ne kind, rest⟩⟩

end SelectSyntax.Parse

namespace SelectSyntax.Session

open Parse

variable {α : Type} {s : Session} {p : Parser α}

theorem run_same {q : Parser α} (same : p s.state = q s.state) : s.run p = s.run q := by
  rw [run, run, same]

theorem run_eq_ok {a : α} : (s.run p).1 = .ok a ↔ ∃ t, p s.state = .ok a t := by
  unfold run
  cases outcome : p s.state with
  | ok b t => simp
  | error f t => simp

theorem run_eq_error {e : ParseError} :
    (s.run p).1 = .error e ↔ ∃ f t, p s.state = .error f t ∧ f.toError = e := by
  unfold run
  cases outcome : p s.state with
  | ok b t => simp
  | error f t => simp

end SelectSyntax.Session
