import SelectSyntax.Proofs.Completeness
import SelectSyntax.Proofs.DepthLimit

/-!
Statements and the grammar: a text is parsed as a statement exactly where its tokens are a script of the
grammar, and the tree is the one that the derivation with first readings preferred stands for.
-/

set_option autoImplicit false
set_option relaxedAutoImplicit false

namespace SelectSyntax

open Grammar (Allows Derives IsScript anyReading firstReading script)
open Parse
open SyntaxTree (Statement)

def Parse.State.symbols (s : State) : Word := s.cursor.snapshots.map fun p => p.token.symbol

/-- A form is read up to the end of a text when the symbols before the end are derived from it. -/
theorem Parse.Reads.to_end_iff {allows : Allows} {s : State} {α : Type} {F : Form α} {a : α}
    (complete : s.Complete) :
    (∃ t, Reads allows s F a t ∧ t.kind = .eof) ↔
      ∃ w last, s.symbols = w ++ [last] ∧ last.kind = .eof ∧ Derives allows F s.parameters w a := by
  constructor
  · rintro ⟨t, reads, ends⟩
    obtain ⟨_, w, spells, derives⟩ := id reads
    obtain ⟨run, snapshots, rfl, _⟩ := spells
    have terminal : t.cursor.current.isTerminal = true := by
      show t.kind.isTerminal = true
      rw [ends]
      rfl
    have alone : t.cursor.snapshots = [t.cursor.current] :=
      congrArg (List.cons _) (reads.complete.isTerminal_iff.mp terminal)
    refine ⟨_, t.token.symbol, ?_, ends, derives⟩
    rw [State.symbols, snapshots, alone, List.map_append]
    rfl
  · rintro ⟨w, last, symbols, ends, derives⟩
    obtain ⟨run, rest, snapshots, rfl, one⟩ := List.map_eq_append_iff.mp symbols
    obtain ⟨p, rfl, rfl⟩ := List.map_eq_singleton_iff.mp one
    exact ⟨⟨⟨p, []⟩, _, _⟩, ⟨complete, _, ⟨run, snapshots, rfl, rfl, rfl⟩, derives⟩, ends⟩

namespace Session

theorem inside_first {s : Session} {e : Entry} {a : e.Result} {t : State} (run : s.inside e s.state = .ok a t) :
    Reads firstReading s.state (Form.construct e) a t := by
  have levels : s.levels ≤ s.levels + (s.state.remaining + 1) := Nat.le_add_right ..
  rcases (levelled_restricts s.limit 0 levels e).2 s.state s.complete with ⟨f, u, refused, _⟩ | same
  · cases run.symm.trans refused
  · exact levelled_sound_first _ _ e s.state a t s.complete (by omega) (same.symm.trans run)

/-- What is derived from the form of a construct with first readings preferred is found by its rule. -/
theorem inside_exact {s : Session} {e : Entry} {a : e.Result} {t : State} (free : s.config.maxDepth = none)
    (reads : Reads firstReading s.state (Form.construct e) a t) (ends : e.ends t.kind = true) :
    s.inside e s.state = .ok a t := by
  have levels : s.levels = s.state.remaining + 1 := by
    rw [Session.levels, free]
    rfl
  rw [Session.inside, levels]
  exact levelled_exact _ _ e s.state a t (Nat.lt_succ_self _) reads ends

theorem statement_iff {s : Session} {a : Statement} {t : State} (free : s.config.maxDepth = none)
    (whole : s.config.requireEnd = true) :
    Call.statement.parser s s.state = .ok a t ↔ Reads firstReading s.state script a t ∧ t.kind = .eof := by
  refine wholeStatement_eq_ok.trans ⟨?_, ?_⟩
  · rintro ⟨m, first, last, ends⟩
    have query := inside_first first
    refine ⟨?_, ends whole⟩
    rcases last with ⟨kind, rfl⟩ | ⟨_, rfl⟩
    · exact Reads.seqLeft_iff.mpr ⟨some (), m, query, Reads.optional_iff.mpr (Or.inl ⟨(), rfl,
        (Reads.mark_iff ⟨rfl, by simp⟩).mpr ⟨query.complete, kind, rfl⟩⟩)⟩
    · exact Reads.seqLeft_iff.mpr ⟨none, t, query, Reads.optional_iff.mpr (Or.inr ⟨rfl, query.complete, rfl⟩)⟩
  · rintro ⟨reads, ends⟩
    obtain ⟨o, m, query, last⟩ := Reads.seqLeft_iff.mp reads
    rcases Reads.optional_iff.mp last with ⟨_, _, mark⟩ | ⟨_, _, rfl⟩
    · obtain ⟨_, kind, rfl⟩ := (Reads.mark_iff ⟨rfl, by simp⟩).mp mark
      exact ⟨m, inside_exact free query (by rw [kind]; rfl), Or.inl ⟨kind, rfl⟩, fun _ => ends⟩
    · exact ⟨_, inside_exact free query (by rw [ends]; rfl), Or.inr ⟨by simp [ends], rfl⟩, fun _ => ends⟩

end Session

theorem Session.symbols_ofText (text : String) (config : Config) :
    (Session.ofText text config).state.symbols =
      (Scanner.ofText text).tokenize.map Token.symbol := by
  rw [Scanner.tokenize, List.map_map]
  rfl

theorem Grammar.IsScript.any {allows : Allows} {tokens : List Token} {t : Statement}
    (h : IsScript allows tokens t) : IsScript anyReading tokens t := by
  obtain ⟨w, last, symbols, ends, derives⟩ := h
  exact ⟨w, last, symbols, ends, derives.any⟩

theorem Grammar.IsScript.exists_first {tokens : List Token} {t : Statement}
    (h : IsScript anyReading tokens t) : ∃ t, IsScript firstReading tokens t := by
  obtain ⟨w, last, symbols, ends, derives⟩ := h
  obtain ⟨t, derives⟩ := derives.exists_first
  exact ⟨t, w, last, symbols, ends, derives⟩

theorem ofSql_eq_ok {sql : String} {t : Statement} :
    Statement.ofSql sql = .ok t ↔ IsScript firstReading (Scanner.ofText sql).tokenize t := by
  have complete := (Session.ofText sql {}).complete
  have phrase := (Reads.to_end_iff complete : (∃ u, Reads firstReading _ script t u ∧ u.kind = .eof) ↔ _)
  rw [Session.symbols_ofText] at phrase
  refine Iff.trans ?_ phrase
  rw [Session.Call.ofSql_eq_run, Session.run_eq_ok]
  simp only [Session.statement_iff (s := Session.ofText sql {}) rfl rfl]

/-- A text is parsed exactly where its tokens are a script of the grammar, whatever the readings of its
parentheses, and the tree is the one where first readings are preferred. No text with a malformed lexeme
is parsed. -/
theorem Grammar.ofSql_iff_isScript (sql : String) :
    (∀ t, Statement.ofSql sql = .ok t ↔ IsScript firstReading (Scanner.ofText sql).tokenize t) ∧
      ((∃ t, Statement.ofSql sql = .ok t) ↔
        ∃ t, IsScript anyReading (Scanner.ofText sql).tokenize t) ∧
      ((∃ k ∈ (Scanner.ofText sql).tokenize, ∃ f, k.kind = .fault f) →
        ∀ t, Statement.ofSql sql ≠ .ok t) := by
  refine ⟨fun t => ofSql_eq_ok, ?_, ?_⟩
  · constructor
    · rintro ⟨t, run⟩
      exact ⟨t, (ofSql_eq_ok.mp run).any⟩
    · rintro ⟨t, any⟩
      obtain ⟨t, first⟩ := any.exists_first
      exact ⟨t, ofSql_eq_ok.mpr first⟩
  · rintro ⟨k, mem, f, fault⟩ t run
    obtain ⟨w, last, symbols, ends, derives⟩ := ofSql_eq_ok.mp run
    have mem' : k.symbol ∈ w ++ [last] := symbols ▸ List.mem_map_of_mem mem
    have kind : k.symbol.kind = .fault f := fault
    rcases List.mem_append.mp mem' with mem' | mem'
    · have live := derives.live _ mem'
      rw [kind] at live
      cases live
    · obtain rfl := List.mem_singleton.mp mem'
      rw [kind] at ends
      cases ends

end SelectSyntax
