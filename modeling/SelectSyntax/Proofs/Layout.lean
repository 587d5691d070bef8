import SelectSyntax.Proofs.Resuming
import SelectSyntax.Proofs.Tracking

/-!
What the layout of a text means to a rule: nothing. Where the tokens of two scanners match one by one, a rule
gives the same tree on both and stops at tokens of one index, or gives errors of the same kind at tokens of one
index, whatever lies between the tokens, however they are spelled and wherever they stand.
-/

set_option autoImplicit false
set_option relaxedAutoImplicit false

namespace SelectSyntax

namespace Parse

theorem Cursor.Within.getElem?_current {c d : Cursor} (h : c.Within d) :
    (d.snapshots.map Snapshot.token)[d.remaining - c.remaining]? = some c.current.token := by
  rw [← Nat.add_zero (d.remaining - c.remaining), ← List.getElem?_drop, ← h.tokens_eq_drop]
  rfl

/-- Of two cursors among snapshots whose tokens start one after another, the one with fewer tokens left is the
one whose token starts further on. -/
theorem Cursor.Within.remaining_le_iff {c c' d : Cursor} (h : c.Within d) (h' : c'.Within d)
    (increasing : d.snapshots.Pairwise fun p q => p.token.place.offset < q.token.place.offset) :
    c.remaining ≤ c'.remaining ↔ c'.current.token.place.offset ≤ c.current.token.place.offset := by
  -- of two suffixes of one list the shorter one is a suffix of the longer one
  have later : ∀ {a b : Cursor}, a.Within d → b.Within d → a.remaining < b.remaining →
      b.current.token.place.offset < a.current.token.place.offset := by
    intro a b ha hb less
    have suffix : a.snapshots <:+ b.snapshots :=
      List.suffix_of_suffix_length_le ha hb (Nat.succ_le_succ (Nat.le_of_lt less))
    have ahead : a.snapshots <:+ b.ahead := by
      rcases List.suffix_cons_iff.mp suffix with same | ahead
      · have length : a.remaining = b.remaining := Nat.succ.inj (congrArg List.length same)
        omega
      · exact ahead
    exact (List.pairwise_cons.mp (increasing.sublist hb.sublist)).1 _ (ahead.subset List.mem_cons_self)
  constructor
  · intro le
    rcases Nat.lt_or_eq_of_le le with less | same
    · exact Nat.le_of_lt (later h h' less)
    · exact Nat.le_of_eq (congrArg (·.current.token.place.offset) (h.eq_of_remaining h' same).symm)
  · intro le
    by_contra more
    exact absurd (later h' h (Nat.lt_of_not_le more)) (Nat.not_lt_of_le le)

end Parse

namespace Session

open Parse

theorem snapshots_increasing (text : String) (n : Nat) (config : Config) :
    (ofScanner (Scanner.advance^[n] (Scanner.ofText text)) config).state.cursor.snapshots.Pairwise
      fun p q => p.token.place.offset < q.token.place.offset := by
  have suffix := (Scanner.ofText text).snapshots_iterate n
  have whole : (Scanner.ofText text).snapshots = _ := snapshots_ofText text config
  rw [whole] at suffix
  exact (Snapshot.follow_places _ _ _).2.sublist suffix.sublist

/-- The failure found further on is the one whose token starts further on in the text, and the first one where both
are found at one token. -/
theorem further_eq_of_offsets (text : String) (n : Nat) (config : Config) {f g : Failure}
    (first : f.cursor.Within (ofScanner (Scanner.advance^[n] (Scanner.ofText text)) config).state.cursor)
    (second : g.cursor.Within (ofScanner (Scanner.advance^[n] (Scanner.ofText text)) config).state.cursor) :
    f.further g = if g.toError.position.offset ≤ f.toError.position.offset then f else g := by
  have order := first.remaining_le_iff second (snapshots_increasing text n config)
  unfold Failure.further
  exact if_congr order rfl rfl

/-- One value, or errors of one kind with one list of accepted kinds, found at tokens of one index. -/
inductive SameOutcome {α : Type} (tokens tokens' : List Token) :
    Except ParseError α → Except ParseError α → Prop
  | ok (a : α) : SameOutcome tokens tokens' (.ok a) (.ok a)
  | error {e e' : ParseError} (kind : e.kind = e'.kind) (expected : e.expected = e'.expected) (i : Nat)
      (found : tokens[i]? = some e.found) (found' : tokens'[i]? = some e'.found) :
      SameOutcome tokens tokens' (.error e) (.error e')

theorem Call.shift_zero (c : Call) (a : c.Result) : c.shift 0 a = a := by
  cases c with
  | statement | query => exact SyntaxTree.Statement.shift_zero a
  | condition => exact SyntaxTree.Expr.shift_zero a

/-- Failures with one cause at matching tokens are errors of one kind. -/
theorem kind_eq_of_matches {cause : Cause} {c c' : Cursor} (offending : c.Matches c') :
    (Failure.toError ⟨cause, c⟩).kind = (Failure.toError ⟨cause, c'⟩).kind := by
  have kinds := offending.current.1
  unfold Failure.toError ParseError.kind
  cases cause with
  | unexpected expected =>
      dsimp only
      rw [kinds]
  | notAllowed what => rfl
  | tooDeep limit => rfl

/-- Where the tokens of two scanners match one by one, the outcomes of a rule on them are the same, and it moves
both to states with as many tokens left. -/
private theorem Call.run_matches (c : Call) (config : Config) {s s' : Scanner}
    (tokens : List.Forall₂ Token.Matches s.tokenize s'.tokenize) :
    ∃ t t' : State, t.remaining = t'.remaining ∧ t.Within (ofScanner s config).state ∧
      t'.Within (ofScanner s' config).state ∧ (c.run (ofScanner s config)).2 = (ofScanner s config).moveTo t ∧
      (c.run (ofScanner s' config)).2 = (ofScanner s' config).moveTo t' ∧
      SameOutcome s.tokenize s'.tokenize (c.run (ofScanner s config)).1 (c.run (ofScanner s' config)).1 := by
  have cursors : (ofScanner s config).state.cursor.Matches (ofScanner s' config).state.cursor := tokens
  have tracking : Tracking 0 (c.shift 0) (c.parser (ofScanner s config)) (c.parser (ofScanner s' config)) :=
    c.tracking 0 rfl rfl cursors.remaining
  obtain ⟨t, t', states, within, within', runs⟩ := tracking.outcomes (c.parser_deepOnlyAfter _).1
    (c.parser_deepOnlyAfter _).1 (complete _) (complete _) ⟨cursors, rfl⟩
  refine ⟨t, t', states.tokens.remaining, within, within', ?_⟩
  rw [c.run_eq, c.run_eq, Session.run, Session.run]
  rcases runs with ⟨a, run, run'⟩ | ⟨cause, d, d', run, run', offending, place, place'⟩
  · rw [run, run', c.shift_zero]
    exact ⟨rfl, rfl, .ok a⟩
  · rw [run, run']
    have found' := place'.getElem?_current
    rw [← cursors.remaining, ← offending.remaining] at found'
    exact ⟨rfl, rfl, .error (kind_eq_of_matches offending) rfl _ place.getElem?_current found'⟩

theorem Call.sameOutcome (c : Call) (config : Config) {s s' : Scanner}
    (tokens : List.Forall₂ Token.Matches s.tokenize s'.tokenize) :
    SameOutcome s.tokenize s'.tokenize (c.run (ofScanner s config)).1 (c.run (ofScanner s' config)).1 := by
  obtain ⟨_, _, _, _, _, _, _, same⟩ := c.run_matches config tokens
  exact same

/-- Where the tokens of two scanners match one by one, a rule leaves both on tokens of one index. -/
theorem Call.sameIndex (c : Call) (config : Config) {s s' : Scanner}
    (tokens : List.Forall₂ Token.Matches s.tokenize s'.tokenize) :
    ∃ i, (c.run (ofScanner s config)).2.scanner.tokenize = s.tokenize.drop i ∧
      (c.run (ofScanner s' config)).2.scanner.tokenize = s'.tokenize.drop i := by
  obtain ⟨t, t', left, within, within', moved, moved', _⟩ := c.run_matches config tokens
  have remaining : (ofScanner s config).state.remaining = (ofScanner s' config).state.remaining :=
    Cursor.Matches.remaining tokens
  have last := tokenize_moveTo_eq_drop (isPrimed_ofScanner s config) within
  have last' := tokenize_moveTo_eq_drop (isPrimed_ofScanner s' config) within'
  rw [← remaining, ← left] at last'
  rw [moved, moved']
  exact ⟨_, s.tokenize_primed ▸ last, s'.tokenize_primed ▸ last'⟩

/-- Where the tokens of two scanners match one by one, every rule does the same on both under any configuration:
it gives the same tree, or errors of the same kind with the same accepted kinds at tokens of one index, and it
leaves both scanners on tokens of one index. The failure that is kept of two is the one whose token starts further
on in the text, the first one where both are at one token; which of them that is does not depend on the text. -/
theorem run_of_matching (c : Call) (config : Config) {s s' : Scanner}
    (tokens : List.Forall₂ Token.Matches s.tokenize s'.tokenize) :
    let r := c.run (ofScanner s config)
    let r' := c.run (ofScanner s' config)
    SameOutcome s.tokenize s'.tokenize r.1 r'.1 ∧
      (∃ i, r.2.scanner.tokenize = s.tokenize.drop i ∧ r'.2.scanner.tokenize = s'.tokenize.drop i) ∧
      ∀ text n, s = Scanner.advance^[n] (Scanner.ofText text) → ∀ f g : Failure,
        f.cursor.Within (ofScanner s config).state.cursor → g.cursor.Within (ofScanner s config).state.cursor →
        f.further g = if g.toError.position.offset ≤ f.toError.position.offset then f else g :=
  ⟨c.sameOutcome config tokens, c.sameIndex config tokens, by
    rintro text n rfl f g first second
    exact further_eq_of_offsets text n config first second⟩

/-- Two texts that differ in letter case, quotes, layout and the spelling of an operator. -/
theorem run_of_matching_spellings :
    let s := Scanner.ofText "SELECT a, COUNT(*) FROM t WHERE b <> 'x' ;"
    let s' := Scanner.ofText "select [a] ,COUNT( *) -- all\nfrom \"t\" Where/**/b!='x';"
    let r := Call.statement.run (ofScanner s {})
    let r' := Call.statement.run (ofScanner s' {})
    List.Forall₂ Token.Matches s.tokenize s'.tokenize ∧
      SameOutcome s.tokenize s'.tokenize r.1 r'.1 ∧
      (∃ i, r.2.scanner.tokenize = s.tokenize.drop i ∧ r'.2.scanner.tokenize = s'.tokenize.drop i) ∧
      ∀ f g : Failure, f.cursor.Within (ofScanner s {}).state.cursor →
        g.cursor.Within (ofScanner s {}).state.cursor →
        f.further g = if g.toError.position.offset ≤ f.toError.position.offset then f else g := by
  have tokens : List.Forall₂ Token.Matches
      (Scanner.ofText "SELECT a, COUNT(*) FROM t WHERE b <> 'x' ;").tokenize
      (Scanner.ofText "select [a] ,COUNT( *) -- all\nfrom \"t\" Where/**/b!='x';").tokenize := by
    decide +kernel
  obtain ⟨same, index, kept⟩ := run_of_matching .statement {} tokens
  exact ⟨tokens, same, index, kept _ 0 rfl⟩

end Session

end SelectSyntax
