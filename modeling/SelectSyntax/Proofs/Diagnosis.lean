import SelectSyntax.Proofs.Continuation
import SelectSyntax.Proofs.Expectation
import SelectSyntax.Proofs.Locality

/-!
Where errors are found. A text that is no statement is refused at the first token with which it cannot become
one: the tokens before it are those that some statement starts with, and with it they are not.
-/

set_option autoImplicit false
set_option relaxedAutoImplicit false

namespace SelectSyntax

open Parse
open SyntaxTree (Statement)
open Token (Kind)
open Word (single)

/-- Tokens that, but for their places, the text of some statement starts with. -/
def Continuable (tokens : List Token) : Prop :=
  ∃ text statement, tokens.map Token.symbol <+: (Scanner.ofText text).tokenize.map Token.symbol ∧
    Statement.ofSql text = .ok statement

theorem Word.exists_statement {w : Word} (mem : w ∈ Grammar.script.language)
    (written : ∀ s ∈ w, s.Written) :
    ∃ text statement, (Scanner.ofText text).tokenize.map Token.symbol = w ++ [⟨.eof, ""⟩] ∧
      Statement.ofSql text = .ok statement := by
  obtain ⟨n, q, derives⟩ := mem
  obtain ⟨text, symbols⟩ := (Grammar.dotted_of_script derives).exists_text written
  obtain ⟨q', derives'⟩ := derives.renumber 0
  have holds : Grammar.IsScript Grammar.anyReading (Scanner.ofText text).tokenize q' :=
    ⟨w, ⟨.eof, ""⟩, symbols, rfl, derives'⟩
  obtain ⟨statement, first⟩ := holds.exists_first
  exact ⟨text, statement, symbols, ofSql_eq_ok.mpr first⟩

namespace Session

theorem statement_viable (s : Session) :
    Viable Grammar.script.language (Call.statement.parser s) fun _ => 1 := by
  have script : Grammar.script.language =
      (Form.construct .query).language * ((single .semicolon + 1) * 1) := by
    rw [Grammar.script, Form.language_seqLeft, Form.language_optional, Form.language_mark rfl, mul_one]
  rw [script]
  refine (levelled_spans _ _ .query).andThen fun statement => (Spans.eat rfl).andThen fun _ =>
    .look fun k => ?_
  split
  · exact .unexpected Productive.one _
  · exact .pure statement (le_refl 1)

/-- Where a whole statement is refused the words before are those of a continuable beginning. -/
theorem continuable_of_error {text : String} {f : Failure} {t : State}
    (run : Call.statement.parser (ofText text {}) (ofText text {}).state = .error f t) :
    ∃ before, (ofText text {}).state.cursor.snapshots = before ++ f.cursor.snapshots ∧
      Continuable (before.map Snapshot.token) := by
  have viable := statement_viable (ofText text {}) _ (ofText text {}).complete
  simp only [ViableAt, run] at viable
  obtain ⟨_, ⟨before, snapshots, rfl⟩, z, mem, written⟩ := viable
  have live : ∀ s ∈ before.map fun p => p.token.symbol, s.kind.isTerminal = false := by
    obtain ⟨n, q, derives⟩ := mem
    exact fun s mem => derives.live s (List.mem_append_left _ mem)
  have scanned : ∀ s ∈ before.map fun p => p.token.symbol, s.Written := by
    intro s mem
    refine tokenize_written text s ?_ (live s mem)
    rw [← symbols_ofText text {}, State.symbols, snapshots, List.map_append]
    exact List.mem_append_left _ mem
  obtain ⟨other, statement, symbols, accepted⟩ := Word.exists_statement mem fun s mem =>
    (List.mem_append.mp mem).elim (scanned s) (written s)
  refine ⟨before, snapshots, other, statement, ?_, accepted⟩
  rw [symbols, List.map_map, List.append_assoc]
  exact List.prefix_append _ _

theorem statement_local (s : Session) : Local (Call.statement.parser s) := by
  refine .bind (levelled_local _ _ .query) fun statement => .bind (.eat rfl) fun _ => .look fun k => ?_
  split
  · exact .unexpected _
  · exact .pure statement

/-- Without a limit all is as with any limit that is high enough. -/
theorem statement_limited {text : String} {n : Nat} (enough : (ofText text {}).levels ≤ n) :
    Call.statement.parser (ofText text {}) (ofText text {}).state =
      Call.statement.parser (ofText text ⟨some n, true⟩) (ofText text {}).state := by
  have restricts : Restricts (Call.statement.parser (ofText text {}))
      (Call.statement.parser (ofText text ⟨some n, true⟩)) := Call.statement.parser_restricts enough rfl
  rcases restricts.2 _ (ofText text {}).complete with ⟨f, t, run, deep⟩ | same
  · exact absurd deep (not_tooDeep_of_unlimited .statement text true run)
  · exact same

/-- A text with the same symbols up to the one where an error is found is refused as well. -/
theorem error_of_shared {text text' : String} {f : Failure} {t : State} {u x : Word}
    (run : Call.statement.parser (ofText text {}) (ofText text {}).state = .error f t)
    (split : (ofText text {}).state.cursor.snapshots.map (fun p => p.token.symbol) =
      u ++ f.cursor.snapshots.map fun p => p.token.symbol)
    (shared : (ofText text' {}).state.symbols = u ++ f.cursor.current.token.symbol :: x) :
    ∃ f' t', Call.statement.parser (ofText text' {}) (ofText text' {}).state = .error f' t' := by
  -- One limit that is high enough for both texts makes it the same parser that runs on them.
  have enough := Nat.le_max_left (ofText text {}).levels (ofText text' {}).levels
  have enough' := Nat.le_max_right (ofText text {}).levels (ofText text' {}).levels
  generalize max (ofText text {}).levels (ofText text' {}).levels = n at enough enough'
  have twins : Twins (f.cursor.ahead.map fun p => p.token.symbol) x
      (ofText text {}).state (ofText text' {}).state :=
    { complete := (ofText text {}).complete
      complete' := (ofText text' {}).complete
      parameters := rfl
      shared := ⟨u ++ [f.cursor.current.token.symbol], by simp, by
        rw [State.symbols, split, List.append_assoc]
        rfl, by rw [shared, List.append_assoc]; rfl⟩ }
  have mirrors := (statement_local (ofText text ⟨some n, true⟩)).mirrors _ _ _ _ twins
  rw [← statement_limited enough, run] at mirrors
  have same : Call.statement.parser (ofText text ⟨some n, true⟩) =
      Call.statement.parser (ofText text' ⟨some n, true⟩) := rfl
  rw [statement_limited enough', ← same]
  exact mirrors (by simp [Failure.remaining, Cursor.remaining])

end Session

/-- A text is refused with a lexical error exactly where the token found is malformed. -/
theorem isLexical_iff {text : String} {e : ParseError} (rejected : Statement.ofSql text = .error e) :
    e.isLexical = true ↔ ∃ fault, e.found.kind = .fault fault := by
  rw [Session.Call.ofSql_eq_run] at rejected
  obtain ⟨f, t, run, rfl⟩ := Session.run_eq_error.mp rejected
  have consistent := (Session.Call.statement.parser_coherent (Session.ofText text {}) _ _
    (Session.complete _) (Nat.lt_succ_self _) trivial).2 f t run
  rw [ParseError.isLexical, beq_iff_eq]
  exact consistent.lexical_iff (Session.not_tooDeep_of_unlimited .statement text true run)

theorem index_unique_of_place {text : String} {i j : Nat} {t u : Token}
    (first : (Scanner.ofText text).tokenize[i]? = some t)
    (second : (Scanner.ofText text).tokenize[j]? = some u) (same : t.place = u.place) : i = j := by
  have increasing := List.pairwise_iff_getElem.mp (Session.tokenize_places text)
  obtain ⟨before, rfl⟩ := List.getElem?_eq_some_iff.mp first
  obtain ⟨before', rfl⟩ := List.getElem?_eq_some_iff.mp second
  rcases Nat.lt_trichotomy i j with less | rfl | less
  · have offsets := increasing i j before before' less
    rw [same] at offsets
    omega
  · rfl
  · have offsets := increasing j i before' before less
    rw [same] at offsets
    omega

/-- A text that is no statement is refused at the first token that leaves no way to go on: the tokens before
it are those that some statement starts with, and no statement starts with these and that token. The error is
lexical exactly if that token is malformed. -/
theorem ofSql_error_at_first_hopeless {text : String} {e : ParseError}
    (rejected : Statement.ofSql text = .error e) :
    ∃ i token, (Scanner.ofText text).tokenize[i]? = some token ∧ token.place = e.position ∧
      (∀ j other, (Scanner.ofText text).tokenize[j]? = some other → other.place = e.position → j = i) ∧
      Continuable ((Scanner.ofText text).tokenize.take i) ∧
      ¬Continuable ((Scanner.ofText text).tokenize.take (i + 1)) ∧
      (e.isLexical = true ↔ ∃ fault, token.kind = .fault fault) := by
  have lexical := isLexical_iff rejected
  rw [Session.Call.ofSql_eq_run] at rejected
  obtain ⟨f, t, run, rfl⟩ := Session.run_eq_error.mp rejected
  obtain ⟨before, snapshots, continuable⟩ := Session.continuable_of_error run
  have tokens : (Scanner.ofText text).tokenize = before.map Snapshot.token ++
      f.cursor.current.token :: f.cursor.ahead.map Snapshot.token := by
    have all : (Scanner.ofText text).tokenize =
        (Session.ofText text {}).state.cursor.snapshots.map Snapshot.token := rfl
    rw [all, snapshots, List.map_append]
    rfl
  have length : (before.map Snapshot.token).length = before.length := List.length_map _
  have here : (Scanner.ofText text).tokenize[before.length]? = some f.cursor.current.token := by
    rw [tokens, List.getElem?_append_right (by omega), length, Nat.sub_self]
    rfl
  refine ⟨before.length, f.cursor.current.token, here, rfl,
    fun j other there same => index_unique_of_place there here same, ?_, ?_, lexical⟩
  · rwa [tokens, ← length, List.take_left]
  · rintro ⟨other, statement, ⟨x, shared⟩, accepted⟩
    have found : (Scanner.ofText text).tokenize.take (before.length + 1) =
        before.map Snapshot.token ++ [f.cursor.current.token] := by
      rw [tokens, List.take_append, length, List.take_of_length_le (by omega), Nat.add_sub_cancel_left]
      rfl
    rw [found, ← Session.symbols_ofText other {}, List.map_append, List.append_assoc] at shared
    obtain ⟨g, u, failed⟩ := Session.error_of_shared run
      (by rw [snapshots, List.map_append, List.map_map]; rfl) shared.symm
    rw [Session.Call.ofSql_eq_run] at accepted
    obtain ⟨v, succeeded⟩ := Session.run_eq_ok.mp accepted
    cases failed.symm.trans succeeded

/-- Two readings of a parenthesis fail at different tokens here, and the error is at the later one. -/
theorem ofSql_error_at_first_hopeless_parentheses :
    let text := "SELECT ((SELECT a) + b c"
    let e : ParseError := ⟨.unexpected [.rightParen], ⟨.identifier, "c", ⟨23, 1, 24⟩, 24⟩⟩
    Statement.ofSql text = .error e ∧
    ∃ i token, (Scanner.ofText text).tokenize[i]? = some token ∧ token.place = e.position ∧
      (∀ j other, (Scanner.ofText text).tokenize[j]? = some other → other.place = e.position → j = i) ∧
      Continuable ((Scanner.ofText text).tokenize.take i) ∧
      ¬Continuable ((Scanner.ofText text).tokenize.take (i + 1)) ∧
      (e.isLexical = true ↔ ∃ fault, token.kind = .fault fault) := by
  have rejected : Statement.ofSql "SELECT ((SELECT a) + b c" =
      .error ⟨.unexpected [.rightParen], ⟨.identifier, "c", ⟨23, 1, 24⟩, 24⟩⟩ := rfl
  exact ⟨rejected, ofSql_error_at_first_hopeless rejected⟩

end SelectSyntax
