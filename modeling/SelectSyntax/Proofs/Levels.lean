import SelectSyntax.Proofs.Consumption
import SelectSyntax.Proofs.Scanning

/-!
The depth of nesting. Whether it is read or not, a construct ends at the depth where it started, so that what is
left of a limit can be counted down instead: a construct under a limit is the one with as many levels left as
the depth leaves of the limit.
-/

set_option autoImplicit false
set_option relaxedAutoImplicit false

namespace SelectSyntax.Parse

open SyntaxTree (Expr Statement)

section
variable {α β : Type} {limit : Option Nat} {p p' q q' : Parser α} {s t : State}

/-- A limit that is reached refuses a construct, and any other one opens a level for it. -/
theorem nested_cases (limit : Option Nat) (p : Parser α) (s : State) :
    (∃ m, limit = some m ∧ m ≤ s.depth ∧ nested limit p s = fail (.tooDeep m) s) ∨
      (∀ m, limit = some m → s.depth < m) ∧ nested limit p s = closeLevel (p s.enter) := by
  cases limit with
  | none => exact Or.inr ⟨by simp, rfl⟩
  | some m =>
      by_cases full : m ≤ s.depth
      · refine Or.inl ⟨m, rfl, full, ?_⟩
        rw [nested, Option.filter_some_pos (by simpa using full)]
      · refine Or.inr ⟨by simpa using full, ?_⟩
        rw [nested, Option.filter_some_neg (by simpa using full)]

theorem Forward.nested (h : Forward p) : Forward (nested limit p) := by
  intro s complete
  rcases nested_cases limit p s with ⟨m, _, _, run⟩ | ⟨_, run⟩ <;> rw [run]
  · exact ⟨.refl _, .refl s⟩
  · have inside : s.enter.Complete := complete
    cases run : p s.enter with
    | ok a t =>
        have within := h.of_ok inside run
        exact ⟨within.cursor, by simp [State.leave, State.enter, within.depth]⟩
    | error e t =>
        obtain ⟨failure, within⟩ := h.failure_within inside run
        exact ⟨failure, within.cursor, by simp [State.leave, State.enter, within.depth]⟩

theorem Consumes.nested (h : Consumes p) : Consumes (nested limit p) where
  forward := h.forward.nested
  takes s a t complete run := by
    rcases nested_cases limit p s with ⟨m, _, _, refused⟩ | ⟨_, opened⟩
    · cases refused.symm.trans run
    · rw [opened] at run
      cases read : p s.enter with
      | ok b u =>
          rw [read] at run
          cases run
          exact h.takes s.enter a u complete read
      | error e u => rw [read] at run; cases run

theorem nested_same (same : p s.enter = p' s.enter) : nested limit p s = nested limit p' s := by
  rw [nested, nested, same]

theorem bind_same {f : α → Parser β} (same : p s = p' s) : (p >>= f) s = (p' >>= f) s := by
  cases run : p s with
  | ok a t => rw [bind_of_ok run, bind_of_ok (same ▸ run)]
  | error e t => rw [bind_of_error run, bind_of_error (same ▸ run)]

theorem closed_same (same : p s = p' s) : closed p s = closed p' s :=
  bind_same same

theorem map_same {g : α → β} (same : p s = p' s) : (g <$> p) s = (g <$> p') s := by
  rw [map_eq_pure_bind, map_eq_pure_bind]
  exact bind_same same

theorem prefer_same (returns : Returns p s) (first : p s = p' s) (second : q s = q' s) :
    prefer p q s = prefer p' q' s := by
  cases run : p s with
  | ok a t => rw [prefer_of_ok run, prefer_of_ok (first ▸ run)]
  | error e t => simp only [prefer, ← first, run, (returns e t run).restore, second]

/-- Neither reading of a parenthesis is tried before the parenthesis has been taken. -/
theorem parenthesized_same {query query' : Parser Statement} (forward : Forward query)
    (complete : s.Complete) (first : s.kind = .leftParen → query s.advance = query' s.advance)
    (second : s.kind = .leftParen → p s.advance = p' s.advance) :
    parenthesized query p s = parenthesized query' p' s := by
  by_cases opens : s.kind = .leftParen
  · have other : ((Sum.inr <$> closed p : Parser (Statement ⊕ α)) s.advance) = (Sum.inr <$> closed p') s.advance :=
      map_same (closed_same (second opens))
    rw [parenthesized_of_kind opens, parenthesized_of_kind opens]
    split
    · exact prefer_same (forward.returns_closed complete).map (map_same (closed_same (first opens))) other
    · exact other
  · rw [parenthesized_of_ne opens, parenthesized_of_ne opens]

end

/-- A rule calls the constructs inside it only after a token, so that it does the same over constructs that do the
same at its depth from there on. -/
theorem rule_same {i i' : Inner} {s : State} (inside : ∀ e, Forward (i e))
    (same : ∀ e (t : State), t.Complete → t.remaining < s.remaining → t.depth = s.depth → i e t = i' e t)
    (complete : s.Complete) (e : Entry) : rule i e s = rule i' e s := by
  let free : Pairs := fun _ p p' =>
    Forward p ∧ ∀ t : State, t.Complete → t.remaining ≤ s.remaining → t.depth = s.depth → p t = p' t
  let held : Pairs := fun _ p p' =>
    Forward p ∧ ∀ t : State, t.Complete → t.remaining < s.remaining → t.depth = s.depth → p t = p' t
  have entries : ∀ e, held e.Result (i e) (i' e) := fun e => ⟨inside e, same e⟩
  have later : ∀ {α : Type} {p p' : Parser α}, held α p p' → ∀ t : State, t.Complete →
      t.remaining ≤ s.remaining → t.depth = s.depth → t.kind = .leftParen → p t.advance = p' t.advance := by
    intro α p p' pair t ended le depth opens
    have less := ended.remaining_advance (by rw [opens]; rfl)
    exact pair.2 t.advance (t.advance_within.complete ended) (by omega) depth
  -- A list of conditions is read wherever a single one is, and in the same way over both families.
  have lists : Alike held held false none (conditions i) (conditions i') := .commaList (.free (entries .condition))
  have values : held _ (conditions i) (conditions i') :=
    ⟨conditions_forward inside, fun t ended less depth =>
      lists.same t
        (fun _ _ _ pair => ⟨pair.1, fun u within le still =>
          pair.2 u within (Nat.lt_of_le_of_lt le less) (still.trans depth)⟩)
        (fun _ _ _ pair => ⟨pair.1, fun u within fewer still =>
          pair.2 u within (Nat.lt_trans fewer less) (still.trans depth)⟩) ended⟩
  have parens : free _ (parenthesized (i .query) (conditions i)) (parenthesized (i' .query) (conditions i')) :=
    ⟨(inside .query).parenthesized values.1, fun t ended le depth => parenthesized_same (inside .query) ended
      (later (entries .query) t ended le depth) (later values t ended le depth)⟩
  have tables : free _ (parenthesized (i .query) (i .table)) (parenthesized (i' .query) (i' .table)) :=
    ⟨(inside .query).parenthesized (inside .table), fun t ended le depth => parenthesized_same (inside .query) ended
      (later (entries .query) t ended le depth) (later (entries .table) t ended le depth)⟩
  exact Alike.same s (fun _ _ _ pair => pair) (fun _ _ _ pair => pair)
    (Alike.rule entries (.free parens) (.free tables) e) complete

section
variable (limit : Option Nat)

theorem constructs_consumes (turns : Nat) (e : Entry) : Consumes (constructs limit turns e) := by
  induction turns generalizing e with
  | zero => exact ⟨fun s _ => ⟨.refl _, .refl s⟩, fun s a t _ run => by cases run⟩
  | succ turns ih => exact (Consumes.rule (fun e => (ih e).forward) e).nested

theorem constructs_succ (turns : Nat) (e : Entry) :
    constructs limit (turns + 1) e = nested limit (rule (constructs limit turns) e) := rfl

/-- With a turn for each token from the current one on, more turns make no difference. -/
theorem constructs_enough (n m : Nat) (e : Entry) {s : State} (complete : s.Complete) (less : s.remaining < n)
    (less' : s.remaining < m) : constructs limit n e s = constructs limit m e s := by
  induction n generalizing m e s with
  | zero => omega
  | succ n ih =>
      obtain ⟨m, rfl⟩ : ∃ k, m = k + 1 := ⟨m - 1, by omega⟩
      have entered : s.enter.remaining = s.remaining := rfl
      exact nested_same (rule_same (fun e => (constructs_consumes limit n e).forward)
        (fun e t ended fewer _ => ih m e ended (by omega) (by omega)) (s := s.enter) complete e)

theorem constructs_eq (turns : Nat) (e : Entry) {s : State} (complete : s.Complete) (less : s.remaining < turns) :
    constructs limit turns e s = nested limit (rule (constructs limit turns) e) s := by
  have entered : s.enter.remaining = s.remaining := rfl
  rw [constructs_enough limit turns (turns + 1) e complete less (by omega), constructs_succ]

end

theorem oblivious_of_alike {α : Type} {p : Parser α}
    (h : Alike (fun _ p _ => Oblivious p) (fun _ p _ => Oblivious p) false none p p) : Oblivious p :=
  h.oblivious (fun _ _ _ pair => pair) fun _ _ _ pair => pair

/-- Constructs with so many levels left pay no regard to the depth. -/
theorem levelled_oblivious (limit levels : Nat) (e : Entry) : Oblivious (levelled limit levels e) := by
  induction levels generalizing e with
  | zero => exact fun _ _ => rfl
  | succ levels ih =>
      have values : Oblivious (conditions (levelled limit levels)) :=
        oblivious_of_alike (.commaList (.free (ih .condition)))
      exact oblivious_of_alike (Alike.rule ih (.free (.parenthesized (ih .query) values))
        (.free (.parenthesized (ih .query) (ih .table))) e)

private theorem closeLevel_enter {α : Type} {p : Parser α} (h : Oblivious p) (s : State) :
    closeLevel (p s.enter) = p s := by
  have leaves : ∀ r : EStateM.Result Failure State α, closeLevel (outcomeAt r (s.depth + 1)) = outcomeAt r s.depth := by
    rintro (_ | _) <;> rfl
  calc
    closeLevel (p s.enter) = closeLevel (outcomeAt (p s) (s.depth + 1)) := congrArg closeLevel (h s _)
    _ = outcomeAt (p s) s.depth := leaves _
    _ = p s := (h s s.depth).symm

/-- A construct under a limit is the one with as many levels left as the depth leaves of the limit, and without a
limit the one with a level for each turn. -/
theorem constructs_eq_levelled (limit : Option Nat) (top turns : Nat) (e : Entry) {s : State}
    (complete : s.Complete) (less : s.remaining < turns) :
    constructs limit turns e s =
      levelled (limit.getD top) (limit.elim turns fun m => m - s.depth) e s := by
  -- One turn further the depth is one more, so that the limit leaves one level fewer.
  induction turns generalizing e s with
  | zero => omega
  | succ turns ih =>
      have forward := fun e => (constructs_consumes limit turns e).forward
      have entered : s.enter.remaining = s.remaining := rfl
      rcases nested_cases limit (rule (constructs limit turns) e) s with ⟨m, rfl, full, run⟩ | ⟨room, run⟩
      · rw [constructs_succ, run, Option.getD_some, Option.elim_some, Nat.sub_eq_zero_of_le full]
        rfl
      · have levels : (limit.elim (turns + 1) fun m => m - s.depth) =
            (limit.elim turns fun m => m - s.enter.depth) + 1 := by
          cases limit with
          | none => rfl
          | some m =>
              have less := room m rfl
              simp only [Option.elim_some, State.enter]
              omega
        have same : rule (constructs limit turns) e s.enter =
            rule (levelled (limit.getD top) (limit.elim turns fun m => m - s.enter.depth)) e s.enter :=
          rule_same forward (fun e t ended fewer depth => depth ▸ ih e ended (by omega)) (s := s.enter) complete e
        rw [constructs_succ, run, same, levels]
        exact closeLevel_enter (levelled_oblivious _ (_ + 1) e) s

end SelectSyntax.Parse

namespace SelectSyntax.Session

open Parse

/-- The limit on nesting; without one, a level for each token is enough. -/
def limit (s : Session) : Nat := s.config.maxDepth.getD (s.state.remaining + 1)

/-- How many levels may be opened. -/
def levels (s : Session) : Nat := s.config.maxDepth.elim (s.state.remaining + 1) fun m => m - s.depth

/-- The parser of a construct with as many levels left as may be opened. -/
def inside (s : Session) : Inner := levelled s.limit s.levels

/-- From where a session is, its constructs are those with as many levels left as may be opened. -/
theorem construct_state (s : Session) (e : Entry) : s.construct e s.state = s.inside e s.state :=
  constructs_eq_levelled s.config.maxDepth _ _ e s.complete (Nat.lt_succ_self _)

end SelectSyntax.Session
