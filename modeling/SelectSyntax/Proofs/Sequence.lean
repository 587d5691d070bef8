import SelectSyntax.Proofs.Resuming
import SelectSyntax.Proofs.Tracking

/-!
Rules one after another. What a rule does on a session depends on the scanner and on the configuration alone:
the rules run before it, whether they failed or not, have only moved the scanner on and raised the numbers that
parameters get from here on.
-/

set_option autoImplicit false
set_option relaxedAutoImplicit false

namespace SelectSyntax

namespace Parse

theorem Cursor.Matches.refl (c : Cursor) : c.Matches c :=
  List.forall₂_same.mpr fun _ _ => ⟨rfl, fun _ => rfl⟩

/-- Of two runs from one place the second one, with more parameters numbered before it, ends where the first
one does. -/
theorem Tracking.same_place {α β : Type} {k : Nat} {g : α → β} {p : Parser α} {p' : Parser β}
    (h : Tracking k g p p') (forward : Forward p) (forward' : Forward p') {s s' : State}
    (complete : s.Complete) (cursor : s.cursor = s'.cursor) (parameters : s'.parameters = s.parameters + k) :
    ∃ t t', t.cursor = t'.cursor ∧ t'.parameters = t.parameters + k ∧
      ((∃ a, p s = .ok a t ∧ p' s' = .ok (g a) t') ∨ ∃ f, p s = .error f t ∧ p' s' = .error f t') := by
  have complete' : s'.Complete := by
    rw [State.Complete, ← cursor]
    exact complete
  have tracks : s.Tracks k s' := ⟨cursor ▸ .refl s.cursor, parameters⟩
  obtain ⟨t, t', states, within, within', runs⟩ := h.outcomes forward forward' complete complete' tracks
  have there : t'.cursor.Within s.cursor := cursor ▸ within'.cursor
  refine ⟨t, t', within.cursor.eq_of_remaining there states.tokens.remaining, states.parameters, ?_⟩
  rcases runs with ok | ⟨cause, c, c', run, run', offending, place, place'⟩
  · exact Or.inl ok
  · rw [← cursor] at place'
    obtain rfl : c = c' := place.eq_of_remaining place' offending.remaining
    exact Or.inr ⟨_, run, run'⟩

end Parse

namespace Session

open Parse

/-- The session after rules have been run one after another, whatever each of them gave. -/
def after (s : Session) (calls : List Call) : Session := calls.foldl (fun s c => (c.run s).2) s

theorem Call.run_moves (c : Call) (s : Session) : ∃ t : State, t.Within s.state ∧ (c.run s).2 = s.moveTo t := by
  have forward := (c.parser_deepOnlyAfter s).1
  rw [c.run_eq, Session.run]
  cases outcome : c.parser s s.state with
  | ok a t => exact ⟨t, forward.of_ok s.complete outcome, rfl⟩
  | error f t => exact ⟨t, (forward.of_error s.complete outcome).2, rfl⟩

/-- What a rule leaves of a session that has read a token: its configuration, a scanner that has read a token, and,
whether it succeeds or fails, the depth of nesting. -/
theorem Call.run_keeps (c : Call) {s : Session} (primed : s.scanner.isPrimed = true) :
    (c.run s).2.scanner.isPrimed = true ∧ (c.run s).2.config = s.config ∧ (c.run s).2.depth = s.depth := by
  obtain ⟨t, within, moved⟩ := c.run_moves s
  rw [moved]
  exact ⟨(state_moveTo primed within).1, rfl, within.depth⟩

theorem after_keeps (calls : List Call) {s : Session} (primed : s.scanner.isPrimed = true) :
    (s.after calls).scanner.isPrimed = true ∧ (s.after calls).config = s.config ∧
      (s.after calls).depth = s.depth := by
  induction calls generalizing s with
  | nil => exact ⟨primed, rfl, rfl⟩
  | cons c calls ih =>
      obtain ⟨still, config, depth⟩ := c.run_keeps primed
      obtain ⟨last, same, level⟩ := ih still
      exact ⟨last, same.trans config, level.trans depth⟩

/-- A rule on a session with no level open does what it does on a fresh one from the same scanner, and gives each
parameter a number that is higher by those given before. -/
theorem Call.run_fresh (c : Call) {s : Session} (primed : s.scanner.isPrimed = true) (outside : s.depth = 0) :
    let fresh := ofScanner s.scanner s.config
    (c.run s).1 = (c.run fresh).1.map (c.shift s.parameters) ∧
      (c.run s).2.scanner = (c.run fresh).2.scanner ∧
      (c.run s).2.parameters = (c.run fresh).2.parameters + s.parameters := by
  intro fresh
  have scanner : fresh.scanner = s.scanner := Scanner.primed_of_isPrimed primed
  have cursor : fresh.state.cursor = s.state.cursor := by
    rw [state, state, scanner]
  have tracking : Tracking s.parameters (c.shift s.parameters) (c.parser fresh) (c.parser s) :=
    c.tracking s.parameters rfl outside.symm (congrArg Cursor.remaining cursor)
  rw [c.run_eq, c.run_eq, Session.run, Session.run]
  obtain ⟨t, t', place, parameters, runs⟩ := tracking.same_place (c.parser_deepOnlyAfter fresh).1
    (c.parser_deepOnlyAfter s).1 fresh.complete cursor (Nat.zero_add _).symm
  have moved : (s.moveTo t').scanner = (fresh.moveTo t).scanner := by
    simp only [moveTo, scanner, place]
  rcases runs with ⟨a, run, run'⟩ | ⟨f, run, run'⟩
  · rw [run, run']
    exact ⟨rfl, moved, parameters⟩
  · rw [run, run']
    exact ⟨rfl, moved, parameters⟩

/-- However many rules have been run on a session, and whichever of them failed, no level of nesting is open before
the next one, nor after it. The next one does what it does on a fresh session from the scanner that they left, but
that it gives each parameter a number that is higher by those given before. -/
theorem run_after (scanner : Scanner) (config : Config) (before : List Call) (c : Call) :
    let s := (ofScanner scanner config).after before
    let fresh := ofScanner s.scanner config
    s.depth = 0 ∧ (c.run s).2.depth = 0 ∧
      (c.run s).1 = (c.run fresh).1.map (c.shift s.parameters) ∧
      (c.run s).2.scanner = (c.run fresh).2.scanner ∧
      (c.run s).2.parameters = (c.run fresh).2.parameters + s.parameters := by
  intro s fresh
  obtain ⟨primed, same, outside⟩ := after_keeps before (isPrimed_ofScanner scanner config)
  obtain ⟨_, _, balanced⟩ := c.run_keeps primed
  have run := c.run_fresh primed outside
  rw [same] at run
  exact ⟨outside, balanced.trans outside, run⟩

end Session

end SelectSyntax
