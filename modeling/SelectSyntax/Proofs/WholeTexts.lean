import SelectSyntax.Proofs.Lines
import SelectSyntax.Proofs.RoundTrip

/-!
Rules and the symbols of texts. A rule takes a word from the front of the tokens of a session exactly where its
form derives it and the symbol after it may stand there; so whether a text is read up to its end is said of the
word that it is scanned into.
-/

set_option autoImplicit false
set_option relaxedAutoImplicit false

namespace SelectSyntax

open Grammar (Derives firstReading)
open Parse
open SyntaxTree (Expr Statement)

/-- A text is scanned into a word, up to its end. -/
def ScansTo (text : String) (w : Word) : Prop :=
  ∃ last, Word.ofChars text.toList = w ++ [last] ∧ last.kind = .eof

namespace Session

/-- A rule takes a word that its form derives, if the symbol after it may stand there. -/
theorem construct_of_symbols {s : Session} {e : Entry} {a : e.Result} {w rest : Word} {σ : Symbol}
    (free : s.config.maxDepth = none) (symbols : s.state.symbols = w ++ σ :: rest)
    (derives : Derives firstReading (Form.construct e) s.parameters w a) (ends : e.ends σ.kind = true) :
    ∃ t, s.construct e s.state = .ok a t ∧ t.Within s.state ∧ t.symbols = σ :: rest := by
  obtain ⟨run, left, snapshots, rfl, same⟩ := List.map_eq_append_iff.mp symbols
  obtain ⟨p, ahead, rfl, rfl, rfl⟩ := List.map_eq_cons_iff.mp same
  have reads : Reads firstReading s.state (Form.construct e) a ⟨⟨p, ahead⟩, _, _⟩ :=
    ⟨s.complete, _, ⟨run, snapshots, rfl, rfl, rfl⟩, derives⟩
  rw [s.construct_state]
  exact ⟨_, inside_exact free reads ends, reads.within, rfl⟩

/-- A text is read by a rule up to its end exactly if the word that it is scanned into is derived from the form
of the rule. -/
theorem construct_ofText_iff {text : String} {e : Entry} {a : e.Result} (ends : e.ends .eof = true) :
    (∃ t, (ofText text {}).construct e (ofText text {}).state = .ok a t ∧ t.kind = .eof) ↔
      ∃ w, ScansTo text w ∧ Derives firstReading (Form.construct e) 0 w a := by
  have complete := (ofText text {}).complete
  have phrase : (∃ t, Reads firstReading _ (Form.construct e) a t ∧ t.kind = .eof) ↔ _ :=
    Reads.to_end_iff complete
  rw [symbols_ofText, Scanner.symbols_ofText] at phrase
  rw [construct_state]
  constructor
  · rintro ⟨t, run, stops⟩
    obtain ⟨w, last, symbols, last_, derives⟩ := phrase.mp ⟨t, inside_first run, stops⟩
    exact ⟨w, ⟨last, symbols, last_⟩, derives⟩
  · rintro ⟨w, ⟨last, symbols, last_⟩, derives⟩
    obtain ⟨t, reads, stops⟩ := phrase.mpr ⟨w, last, symbols, last_, derives⟩
    exact ⟨t, inside_exact rfl reads (stops ▸ ends), stops⟩

theorem run_stops_iff {α : Type} {s : Session} {p : Parser α} {a : α} {k : Token.Kind} :
    (s.run p).1 = .ok a ∧ (s.run p).2.scanner.current.kind = k ↔ ∃ t, p s.state = .ok a t ∧ t.kind = k := by
  unfold run
  cases outcome : p s.state with
  | ok b t =>
      constructor
      · rintro ⟨⟨⟩, stops⟩
        exact ⟨t, rfl, stops⟩
      · rintro ⟨_, ⟨⟩, stops⟩
        exact ⟨rfl, stops⟩
  | error f t => simp

theorem readsAll_iff {text : String} {e : Expr} : ReadsAll text e ↔
    ∃ w, ScansTo text w ∧ Derives firstReading (Form.construct .condition) 0 w e :=
  run_stops_iff.trans (construct_ofText_iff (e := .condition) rfl)

end Session

/-- A run of the rule for queries from the start of a text gives a statement, and the scanner stops at the end of
the text. -/
def Scanner.SelectsAll (text : String) (t : Statement) : Prop :=
  let r := (Scanner.ofText text).select
  r.1 = .ok t ∧ r.2.current.kind = .eof

theorem Scanner.selectsAll_iff {text : String} {t : Statement} : SelectsAll text t ↔
    ∃ w, ScansTo text w ∧ Derives firstReading (Form.construct .query) 0 w t :=
  Session.run_stops_iff.trans (Session.construct_ofText_iff (e := .query) rfl)

end SelectSyntax
