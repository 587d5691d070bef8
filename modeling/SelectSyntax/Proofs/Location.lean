import SelectSyntax.Proofs.Expectation
import SelectSyntax.Proofs.Layout
import SelectSyntax.Proofs.Sequence

/-!
Where rules fail, and where they leave the scanner. A rule never goes past the token that its error is at, even
where that error is one of a reading that was given up; so an error points at a token of the text, and the scanner
stands between the token where the rule started and that one.
-/

set_option autoImplicit false
set_option relaxedAutoImplicit false

namespace SelectSyntax

theorem Parse.Cursor.Within.offset_le {c d : Parse.Cursor} (h : c.Within d)
    (increasing : d.snapshots.Pairwise fun p q => p.token.place.offset < q.token.place.offset) :
    d.current.token.place.offset ≤ c.current.token.place.offset :=
  (h.remaining_le_iff (.refl d) increasing).mp h.remaining_le

namespace Session

open Parse

theorem Call.run_within (c : Call) {s : Session} (primed : s.scanner.isPrimed = true) :
    (c.run s).2.state.Within s.state := by
  obtain ⟨t, within, moved⟩ := c.run_moves s
  rw [moved, (state_moveTo primed within).2]
  exact within

theorem after_within (calls : List Call) {s : Session} (primed : s.scanner.isPrimed = true) :
    (s.after calls).state.Within s.state := by
  induction calls generalizing s with
  | nil => exact .refl s.state
  | cons c calls ih => exact (ih (c.run_keeps primed).1).trans (c.run_within primed)

/-- A rule that fails stops at a token from which the offending one lies ahead, and the failure does not contradict
itself. -/
theorem Call.run_error {c : Call} {s : Session} {e : ParseError} (run : (c.run s).1 = .error e) :
    ∃ (f : Failure) (t : State), e = f.toError ∧ (c.run s).2 = s.moveTo t ∧
      f.cursor.Within t.cursor ∧ t.Within s.state ∧ f.Consistent := by
  rw [c.run_eq] at run
  obtain ⟨f, t, outcome, rfl⟩ := run_eq_error.mp run
  obtain ⟨failure, within⟩ := (c.parser_deepOnlyAfter s).1.failure_within s.complete outcome
  have consistent := (c.parser_coherent s _ s.state s.complete (Nat.lt_succ_self _) trivial).2 f t outcome
  refine ⟨f, t, rfl, ?_, failure, within, consistent⟩
  rw [c.run_eq, Session.run, outcome]

/-- Whatever rules have been run before, an error is at a token of the text: it has the place and the lexeme of that
token, and its class fits the token, unless it is an error of nesting. The scanner is left between the token where
the rule started and the one that the error is at. -/
theorem error_located (text : String) (n : Nat) (config : Config) (before : List Call) (c : Call) (e : ParseError) :
    let s := (ofScanner (Scanner.advance^[n] (Scanner.ofText text)) config).after before
    (c.run s).1 = .error e →
      (∃ token ∈ (Scanner.ofText text).tokenize, e.position = token.place ∧ e.lexeme = token.lexeme ∧
        (e.kind ≠ .nestingTooDeep → (e.kind = .lexical ↔ ∃ fault, token.kind = .fault fault)) ∧
        (e.kind = .clauseNotAllowed → token.kind = .keyword .ON)) ∧
      s.scanner.position.offset ≤ (c.run s).2.scanner.position.offset ∧
      (c.run s).2.scanner.position.offset ≤ e.position.offset := by
  intro s run
  have ahead : s.state.Within (ofScanner (Scanner.advance^[n] (Scanner.ofText text)) config).state :=
    after_within before (isPrimed_ofScanner _ config)
  have increasing := (snapshots_increasing text n config).sublist ahead.cursor.sublist
  obtain ⟨f, t, rfl, stopped, failure, within, consistent⟩ := Call.run_error run
  rw [stopped]
  refine ⟨⟨f.cursor.current.token, ?_, rfl, rfl, fun shallow => ?_, consistent.kind_of_notAllowed⟩,
    within.cursor.offset_le increasing, failure.offset_le (increasing.sublist within.cursor.sublist)⟩
  · have place := (failure.trans within.cursor).trans ahead.cursor
    have suffix : f.cursor.snapshots <:+ (Scanner.ofText text).snapshots :=
      List.IsSuffix.trans place ((Scanner.ofText text).snapshots_iterate n)
    rw [Scanner.tokenize_eq_map]
    exact List.mem_map_of_mem (suffix.subset List.mem_cons_self)
  · exact consistent.lexical_iff fun deep => shallow (Failure.kind_toError_eq_nestingTooDeep.mpr deep)

/-- A condition after two rules that fail, the first one from the second token of a text on. The error is found where a
parenthesis is read as a subquery, which is given up; the scanner is left at the start of that subquery. -/
theorem error_located_given_up :
    let text := "( f(a b((select * from c cross join d on 1 = 1)))"
    let s := (ofScanner (Scanner.advance^[2] (Scanner.ofText text)) {}).after [.condition, .query]
    let e : ParseError := ⟨.notAllowed (onNotAllowed .cross), ⟨.keyword .ON, "on", ⟨38, 1, 39⟩, 40⟩⟩
    (Call.condition.run s).1 = .error e ∧
      (∃ token ∈ (Scanner.ofText text).tokenize, e.position = token.place ∧ e.lexeme = token.lexeme ∧
        (e.kind ≠ .nestingTooDeep → (e.kind = .lexical ↔ ∃ fault, token.kind = .fault fault)) ∧
        (e.kind = .clauseNotAllowed → token.kind = .keyword .ON)) ∧
      s.scanner.position.offset ≤ (Call.condition.run s).2.scanner.position.offset ∧
      (Call.condition.run s).2.scanner.position.offset ≤ e.position.offset := by
  have run : (Call.condition.run ((ofScanner (Scanner.advance^[2]
      (Scanner.ofText "( f(a b((select * from c cross join d on 1 = 1)))")) {}).after [.condition, .query])).1 =
      .error ⟨.notAllowed (onNotAllowed .cross), ⟨.keyword .ON, "on", ⟨38, 1, 39⟩, 40⟩⟩ := rfl
  exact ⟨run, error_located _ 2 {} [.condition, .query] .condition _ run⟩

end Session

end SelectSyntax
