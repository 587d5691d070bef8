import Mathlib.Data.List.Forall2
import SelectSyntax.Proofs.Resuming
import SelectSyntax.Proofs.WholeTexts

/-!
Statements one after another in one text. Queries that are each read up to the end of a text of their own are
read one by one from all these texts with semicolons between them: a query and what is read ahead of it does not
depend on what comes behind its semicolon.
-/

set_option autoImplicit false
set_option relaxedAutoImplicit false

namespace SelectSyntax

open Grammar (Derives firstReading)
open Parse (Entry ParseError)
open SyntaxTree (Statement)
open Token (Kind)

namespace Scanner

theorem kind_of_symbols {s : Scanner} {σ : Symbol} {w : Word} (primed : s.isPrimed = true)
    (symbols : s.tokenize.map Token.symbol = σ :: w) : s.current.kind = σ.kind := by
  rw [tokenize_eq_map, snapshots_of_isPrimed primed] at symbols
  exact congrArg Symbol.kind (List.cons.inj symbols).1

theorem symbols_advance {s : Scanner} {σ : Symbol} {w : Word} (primed : s.isPrimed = true)
    (symbols : s.tokenize.map Token.symbol = σ :: w) (live : σ.kind.isTerminal = false) :
    s.advance.tokenize.map Token.symbol = w := by
  have live' : s.state.isTerminal = false := (congrArg Kind.isTerminal (kind_of_symbols primed symbols)).trans live
  rw [tokenize_eq_map, (snapshots_of_live primed live').2] at symbols
  exact (List.cons.inj symbols).2

/-- A query is read from the front of the symbols of a scanner, if the symbol behind it may stand there. -/
theorem select_of_symbols {s : Scanner} {t : Statement} {w rest : Word} {σ : Symbol}
    (symbols : s.tokenize.map Token.symbol = w ++ σ :: rest)
    (derives : Derives firstReading (Form.construct .query) 0 w t) (ends : Entry.query.ends σ.kind = true) :
    s.select.1 = .ok t ∧ s.select.2.isPrimed = true ∧
      s.select.2.tokenize.map Token.symbol = σ :: rest := by
  have primed := Session.isPrimed_ofScanner s {}
  obtain ⟨u, run, within, left⟩ := Session.construct_of_symbols (s := Session.ofScanner s {}) rfl
    (show (Session.ofScanner s {}).state.symbols = w ++ σ :: rest by
      rw [← symbols, tokenize, List.map_map]
      rfl) derives ends
  obtain ⟨still, there⟩ := Session.state_moveTo primed within
  have outcome : s.select = (.ok t, ((Session.ofScanner s {}).moveTo u).scanner) := by
    simp only [select, Session.select, Session.run, run]
  rw [outcome]
  refine ⟨rfl, still, ?_⟩
  rw [Session.tokenize_eq still, there, List.map_map, ← left]
  rfl

/-- Queries read one after another from a scanner, each with the kind of the token that the scanner stops on; the
scanner is moved on by one token after each of them. -/
def selects : Nat → Scanner → List (Except ParseError Statement × Kind)
  | 0, _ => []
  | n + 1, s => (s.select.1, s.select.2.current.kind) :: selects n s.select.2.advance

private theorem readsAs_semicolon (rest : List Char) : Lexeme.ReadsAs .semicolon [';'] rest := by
  refine ⟨Lexeme.Trivia.split_eq_nil rfl (by simp) (by simp), ?_⟩
  cases rest <;> rfl

/-- The symbols of texts with semicolons between them, of which the first one is scanned up to its end. -/
theorem symbols_batch {text next : String} {w : Word} (scans : ScansTo text w) (more : List String) :
    Word.ofChars ("\n;".intercalate (text :: next :: more)).toList =
      w ++ .mark .semicolon :: Word.ofChars ("\n;".intercalate (next :: more)).toList := by
  obtain ⟨last, whole, ends⟩ := scans
  have chars : ("\n;".intercalate (text :: next :: more)).toList =
      text.toList ++ '\n' :: ([';'] ++ ("\n;".intercalate (next :: more)).toList) := by
    rw [String.intercalate_cons_cons, String.toList_append, String.toList_append, List.append_assoc]
    rfl
  have mark : Lexes ([';'] ++ ("\n;".intercalate (next :: more)).toList) [.mark .semicolon] _ :=
    .lexeme rfl (readsAs_semicolon _) (.done _)
  rw [chars, Word.ofChars_before whole ends, Word.ofChars_lexes mark]
  rfl

private theorem selects_of_symbols {text : String} {t : Statement} {texts : List String} {ts : List Statement}
    (first : SelectsAll text t) (others : List.Forall₂ SelectsAll texts ts) {s : Scanner}
    (symbols : s.tokenize.map Token.symbol = Word.ofChars ("\n;".intercalate (text :: texts)).toList) :
    s.selects (texts.length + 1) =
      ((t :: ts).map Except.ok).zip (List.replicate texts.length .semicolon ++ [.eof]) := by
  induction others generalizing s text t with
  | nil =>
      obtain ⟨w, ⟨last, whole, ends⟩, derives⟩ := selectsAll_iff.mp first
      rw [String.intercalate_singleton, whole] at symbols
      obtain ⟨outcome, primed, left⟩ := select_of_symbols symbols derives (ends ▸ rfl)
      have stops := (kind_of_symbols primed left).trans ends
      simp [selects, outcome, stops]
  | @cons next t' texts ts second rest ih =>
      obtain ⟨w, scans, derives⟩ := selectsAll_iff.mp first
      rw [symbols_batch scans texts] at symbols
      obtain ⟨outcome, primed, left⟩ := select_of_symbols symbols derives rfl
      have stops := kind_of_symbols primed left
      have after := ih second (symbols_advance primed left rfl)
      rw [selects, outcome, stops, List.length_cons, after]
      rfl

private theorem numbered_of_selectsAll {text : String} {t : Statement} (h : SelectsAll text t) :
    Leaf.Numbered 0 t.leaves := by
  obtain ⟨w, _, derives⟩ := selectsAll_iff.mp h
  have leaves : w.leavesFrom false 0 = t.leaves := derives.carries.leaves_eq
  rw [Leaf.Numbered, ← leaves, Word.leavesFrom_positions, List.length_range']

/-- Queries that are each read up to the end of a text of their own are read one after another from these texts
with semicolons between them, on lines of their own. The scanner stops on a semicolon after each of them but the
last one, and at the end after that, and the parameters of each of them are numbered from one. -/
theorem selects_batch {texts : List String} {ts : List Statement} (some_ : texts ≠ [])
    (each : List.Forall₂ SelectsAll texts ts) :
    (ofText ("\n;".intercalate texts)).selects texts.length =
        (ts.map Except.ok).zip (List.replicate (texts.length - 1) .semicolon ++ [.eof]) ∧
      ∀ t ∈ ts, Leaf.Numbered 0 t.leaves := by
  constructor
  · cases each with
    | nil => exact absurd rfl some_
    | cons first others => exact selects_of_symbols first others (symbols_ofText _)
  · clear some_
    induction each with
    | nil => simp
    | cons first _ ih => exact List.forall_mem_cons.mpr ⟨numbered_of_selectsAll first, ih⟩

/-- Three queries with parameters, the first one with a line comment at its end, which the semicolon follows. -/
theorem selects_batch_parameters :
    let texts := ["select ? -- one", "with q as (select ?) select ? from q order by 1", "(select ';?') /* ; */"]
    texts ≠ [] ∧ ∃ ts, List.Forall₂ SelectsAll texts ts ∧
      (ofText ("\n;".intercalate texts)).selects 3 =
          (ts.map Except.ok).zip [.semicolon, .semicolon, .eof] ∧
        ∀ t ∈ ts, Leaf.Numbered 0 t.leaves := by
  intro texts
  obtain ⟨t₁, first⟩ : ∃ t, SelectsAll "select ? -- one" t := ⟨_, rfl, rfl⟩
  obtain ⟨t₂, second⟩ : ∃ t, SelectsAll "with q as (select ?) select ? from q order by 1" t := ⟨_, rfl, rfl⟩
  obtain ⟨t₃, third⟩ : ∃ t, SelectsAll "(select ';?') /* ; */" t := ⟨_, rfl, rfl⟩
  have each : List.Forall₂ SelectsAll texts [t₁, t₂, t₃] := .cons first (.cons second (.cons third .nil))
  have some_ : texts ≠ [] := List.cons_ne_nil _ _
  exact ⟨some_, _, each, selects_batch some_ each⟩

end Scanner

end SelectSyntax
