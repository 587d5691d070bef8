import SelectSyntax.Proofs.Resuming
import SelectSyntax.Proofs.RoundTrip

/-!
What holds of every tree that a rule gives, under any configuration and wherever in a text it starts: the tree
has the shape of trees, and each of its numbers is a text that is one number for the scanner.
-/

set_option autoImplicit false
set_option relaxedAutoImplicit false

namespace SelectSyntax

open Grammar (firstReading)
open SyntaxTree (Expr Statement)

/-- A text is exactly one number for the scanner if it is a numeral. -/
theorem isNumber_iff {text : String} : IsNumber text ↔ Lexeme.IsNumeral text.toList := by
  refine ⟨IsNumber.isNumeral, fun numeral => ?_⟩
  have ends : Lexeme.EndsNumeral [] := by
    intro c more same
    cases same
  have lexes := Lexes.lexeme rfl (Lexeme.readsAs_number numeral ends) (.done [])
  rw [List.append_nil, String.ofList_toList] at lexes
  obtain ⟨t, rest, tokens, number, more⟩ := List.map_eq_cons_iff.mp lexes.tokenize
  obtain ⟨last, rfl, ending⟩ := List.map_eq_singleton_iff.mp more
  have kind : t.kind = .number := congrArg Symbol.kind number
  have value : t.value = text := congrArg Symbol.text number
  refine ⟨t, last, tokens, kind, ?_, congrArg Symbol.kind ending⟩
  rw [← value, Token.value, kind]

namespace Session

open Parse

theorem symbols_fit (text : String) (n : Nat) (config : Config) :
    ∀ σ ∈ (ofScanner (Scanner.advance^[n] (Scanner.ofText text)) config).state.symbols, σ.Fits := by
  intro σ mem
  have suffix := (Scanner.ofText text).snapshots_iterate n
  refine tokenize_fits text σ ?_
  rw [Scanner.tokenize_eq_map, List.map_map]
  exact List.map_subset _ suffix.subset mem

/-- What a construct is read as among tokens that fit their kinds has the shape of trees, and its numbers are
numbers. -/
theorem inside_wellFormed {s : Session} {e : Entry} {a : e.Result} {t : State}
    (fits : ∀ σ ∈ s.state.symbols, σ.Fits) (run : s.inside e s.state = .ok a t) :
    e.Shaped Expr.AreValues a ∧ ∀ number, .number number ∈ e.leaves a → IsNumber number := by
  obtain ⟨_, w, ⟨taken, snapshots, rfl, _⟩, derives⟩ := inside_first run
  refine ⟨derives.shaped, fun number mem => isNumber_iff.mpr ?_⟩
  rw [← derives.carries.leaves_eq, Word.number_mem_leavesFrom] at mem
  refine (fits ⟨.number, number⟩ ?_).1 rfl
  rw [State.symbols, snapshots, List.map_append]
  exact List.mem_append_left _ mem

def Call.Shaped (values : List Expr → Prop) : (c : Call) → c.Result → Prop
  | .statement | .query => Statement.Shaped values
  | .condition => Expr.Shaped values

/-- Every tree that a rule gives has the shape of trees, with no list of values of an `IN` that is written like
a query, and each number in it is a text that is one number for the scanner. -/
theorem run_wellFormed (c : Call) (text : String) (n : Nat) (config : Config) {a : c.Result}
    (run : (c.run (ofScanner (Scanner.advance^[n] (Scanner.ofText text)) config)).1 = .ok a) :
    c.Shaped Expr.AreValues a ∧ ∀ number, .number number ∈ c.leaves a → IsNumber number := by
  have fits := symbols_fit text n config
  rw [c.run_eq] at run
  obtain ⟨t, run⟩ := run_eq_ok.mp run
  cases c with
  | query => exact inside_wellFormed (e := .query) fits run
  | condition => exact inside_wellFormed (e := .condition) fits run
  | statement =>
      obtain ⟨m, first, _⟩ := wholeStatement_eq_ok.mp run
      exact inside_wellFormed (e := .query) fits first

/-- A condition that starts at the third token of a text, with a list of values that starts with a subquery. -/
theorem run_wellFormed_values :
    let s := ofScanner (Scanner.advance^[3] (Scanner.ofText "select ( a in ((select 1e3), 2))")) {}
    ∃ e, (Call.condition.run s).1 = .ok e ∧
      Call.condition.Shaped Expr.AreValues e ∧ ∀ number, .number number ∈ Call.condition.leaves e → IsNumber number := by
  have run : ∃ e, (Call.condition.run (ofScanner
      (Scanner.advance^[3] (Scanner.ofText "select ( a in ((select 1e3), 2))")) {})).1 = .ok e := ⟨_, rfl⟩
  obtain ⟨e, run⟩ := run
  exact ⟨e, run, run_wellFormed .condition _ 3 {} run⟩

end Session

end SelectSyntax
