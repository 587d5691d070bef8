import SelectSyntax.Proofs.Rendering
import SelectSyntax.Proofs.Recognition

/-!
Writing a tree and reading it back. Every tree that is read is read again from what it is written as. A tree
built by hand is, if it has the documented shape and none of its lists of values of an `IN` is written like a
query.
-/

set_option autoImplicit false
set_option relaxedAutoImplicit false

namespace SelectSyntax

open Grammar (Derives IsScript firstReading script)
open Parse (Reads)
open Render (Numerals symbols)
open SyntaxTree

/-- The numbers among the leaves of a word are its number symbols. -/
theorem Word.number_mem_leavesFrom {text : String} (tested : Bool) (n : Nat) (w : Word) :
    Leaf.number text ∈ w.leavesFrom tested n ↔ ⟨.number, text⟩ ∈ w := by
  induction w generalizing tested n with
  | nil => simp [leavesFrom]
  | cons s w ih =>
      have head : Leaf.number text ∈ (s.leaf? tested n).toList ↔ ⟨.number, text⟩ = s := by
        obtain ⟨kind, value⟩ := s
        cases kind with
        | keyword k => cases k <;> cases tested <;> simp [Symbol.leaf?, Token.Keyword.isFunctionName]
        | _ => simp [Symbol.leaf?]
      rw [leavesFrom, List.mem_append, List.mem_cons, head, ih]

def Leaf.Numerals (ls : List Leaf) : Prop := ∀ text, Leaf.number text ∈ ls → Lexeme.IsNumeral text.toList

/-- A text that is exactly one number for the scanner. -/
def IsNumber (text : String) : Prop :=
  ∃ t last, (Scanner.ofText text).tokenize = [t, last] ∧ t.kind = .number ∧ t.raw = text ∧ last.kind = .eof

theorem IsNumber.isNumeral {text : String} (h : IsNumber text) : Lexeme.IsNumeral text.toList := by
  obtain ⟨t, last, tokens, kind, raw, _⟩ := h
  have fits := tokenize_fits text t.symbol (List.mem_map_of_mem (by rw [tokens]; exact List.mem_cons_self ..))
  have value : t.value = text := by rw [Token.value, kind, raw]
  rw [← value]
  exact fits.1 kind

private theorem tokenize_numerals {text : String} {w : Word} {last : Symbol}
    (h : (Scanner.ofText text).tokenize.map Token.symbol = w ++ [last]) : Numerals w := fun s mem number =>
  (tokenize_fits text s (h ▸ List.mem_append_left _ mem)).1 number

/-- A tree that is read again from what it is written as: it has the shape of trees, its numbers are
numerals, and its parameters are numbered from one. -/
def Parse.Entry.Readable (e : Parse.Entry) (a : e.Result) : Prop :=
  e.Shaped Expr.AreValues a ∧ Leaf.Numerals (e.leaves a) ∧ Leaf.Numbered 0 (e.leaves a)

theorem Grammar.Derives.readable {e : Parse.Entry} {w : Word} {a : e.Result}
    (h : Derives firstReading (Form.construct e) 0 w a) (numerals : Numerals w) : e.Readable a := by
  refine ⟨h.shaped, fun text mem => ?_, ?_⟩
  · rw [← h.carries.leaves_eq, Word.number_mem_leavesFrom] at mem
    exact numerals _ mem rfl
  · rw [Leaf.Numbered, ← h.carries.leaves_eq, Word.leavesFrom_positions, List.length_range']

private theorem tokenize_pieces {e : Parse.Entry} {pieces : List Render.Piece} {a : e.Result}
    (spells : Render.Spells pieces) (h : Derives firstReading (Form.construct e) 0 (symbols pieces) a)
    (numerals : Leaf.Numerals (e.leaves a)) :
    (Scanner.ofText (Render.Piece.join pieces)).tokenize.map Token.symbol =
      symbols pieces ++ [⟨.eof, ""⟩] := by
  refine spells.tokenize ?_
  rintro ⟨kind, text⟩ mem rfl
  refine numerals text ?_
  rw [← h.carries.leaves_eq, Word.number_mem_leavesFrom]
  exact mem

private theorem ofSql_readable {sql : String} {t : Statement} (h : Statement.ofSql sql = .ok t) :
    Parse.Entry.query.Readable t := by
  obtain ⟨w, last, symbols, _, derives⟩ := ofSql_eq_ok.mp h
  obtain ⟨u, v, _, rfl, query, _⟩ := Derives.seqLeft_iff.mp derives
  exact query.readable fun s mem => tokenize_numerals symbols s (List.mem_append_left v mem)

/-- A statement is read back from what it is written as exactly if it is readable. -/
theorem SyntaxTree.Statement.ofSql_toSql {t : Statement} :
    Statement.ofSql t.toSql = .ok t ↔ Parse.Entry.query.Readable t := by
  refine ⟨ofSql_readable, fun ⟨shaped, numerals, numbered⟩ => ?_⟩
  have derives := (Render.statement_stands t shaped).2 0 numbered
  have tokens := tokenize_pieces (Render.statement_spells t) derives numerals
  refine ofSql_eq_ok.mpr ⟨_, _, tokens, rfl, Derives.seqLeft_iff.mpr ⟨_, [], none, ?_, derives, ?_⟩⟩
  · exact (List.append_nil _).symm
  · exact Derives.optional_none_iff.mpr rfl

/-- A run of the rule for search conditions gives an expression, and the scanner stops at the end of the
text. -/
def Session.ReadsAll (text : String) (e : Expr) : Prop :=
  let r := (Session.ofText text {}).condition
  r.1 = .ok e ∧ r.2.scanner.current.kind = .eof

private theorem condition_readable {sql : String} {e : Expr} (h : Expr.ofSql sql = .ok e) :
    Parse.Entry.condition.Readable e := by
  obtain ⟨t, run⟩ := Session.run_eq_ok.mp h
  rw [Session.construct_state] at run
  obtain ⟨_, w, ⟨taken, snapshots, rfl, _⟩, derives⟩ := Session.inside_first run
  refine derives.readable fun s mem number => (tokenize_fits sql s ?_).1 number
  rw [← Session.symbols_ofText sql {}, Parse.State.symbols, snapshots, List.map_append]
  exact List.mem_append_left _ mem

/-- An expression is read back from what it is written as, up to the end of the text, exactly if it is
readable. -/
theorem SyntaxTree.Expr.readsAll_toSql {e : Expr} :
    Session.ReadsAll e.toSql e ↔ Parse.Entry.condition.Readable e := by
  refine ⟨fun h => condition_readable h.1, fun ⟨shaped, numerals, numbered⟩ => ?_⟩
  have stands := (Render.expr_stands e shaped).lower (Nat.zero_le _)
  have derives : Derives firstReading (Form.construct .condition) 0 (symbols (Render.expr e)) e :=
    Derives.construct_iff.mpr (stands.2 0 numbered)
  have tokens := tokenize_pieces (Render.expr_spells e) derives numerals
  rw [← Session.symbols_ofText _ {}] at tokens
  have complete := (Session.ofText e.toSql {}).complete
  obtain ⟨t, reads, ends⟩ := (Reads.to_end_iff complete).mpr ⟨_, _, tokens, rfl, derives⟩
  have run := Session.inside_exact (s := Session.ofText e.toSql {}) rfl reads (by rw [ends]; rfl)
  rw [← Session.construct_state] at run
  simp only [Session.ReadsAll, Session.condition, Session.run, run]
  exact ⟨trivial, ends⟩

/-- A tree of the documented shape, which may be built by hand. -/
def Parse.Entry.Documented (e : Parse.Entry) (a : e.Result) : Prop :=
  e.Shaped (fun values => values ≠ []) a ∧ (∀ text, .number text ∈ e.leaves a → IsNumber text) ∧
    Leaf.Numbered 0 (e.leaves a)

/-- What is read is read again from what it is written as: statements, and search conditions whatever
follows them, up to the end of what is written. -/
theorem toSql_of_ofSql (sql : String) :
    (∀ t, Statement.ofSql sql = .ok t → Statement.ofSql t.toSql = .ok t) ∧
      ∀ e, Expr.ofSql sql = .ok e → Session.ReadsAll e.toSql e :=
  ⟨fun _ h => Statement.ofSql_toSql.mpr (ofSql_readable h),
    fun _ h => Expr.readsAll_toSql.mpr (condition_readable h)⟩

/-- A query and a search condition with redundant parentheses, a quoted name and parameters. -/
theorem toSql_of_ofSql_parentheses :
    (∃ t, Statement.ofSql "select ((\"a b\")) from t where (?) in ((select ?), 'x')" = .ok t ∧
        Statement.ofSql t.toSql = .ok t) ∧
      ∃ e, Expr.ofSql "- (- 1.5e3) = ((COUNT(*))) then" = .ok e ∧ Session.ReadsAll e.toSql e := by
  have statement : ∃ t, Statement.ofSql "select ((\"a b\")) from t where (?) in ((select ?), 'x')" = .ok t :=
    ⟨_, rfl⟩
  have condition : ∃ e, Expr.ofSql "- (- 1.5e3) = ((COUNT(*))) then" = .ok e := ⟨_, rfl⟩
  obtain ⟨t, read⟩ := statement
  obtain ⟨e, read'⟩ := condition
  exact ⟨⟨t, read, (toSql_of_ofSql _).1 t read⟩, e, read', (toSql_of_ofSql _).2 e read'⟩

/-- A tree of the documented shape is read again from what it is written as exactly if no list of values of
an `IN` in it is a single subquery without `WITH` and `ORDER BY`. -/
theorem documented_round_trip (t : Statement) (e : Expr) :
    (Parse.Entry.query.Documented t → (Statement.ofSql t.toSql = .ok t ↔ t.Shaped Expr.AreValues)) ∧
      (Parse.Entry.condition.Documented e → (Expr.ofSql e.toSql = .ok e ↔ e.Shaped Expr.AreValues)) := by
  refine ⟨fun documented => ?_, fun documented => ?_⟩
  · have numerals : Leaf.Numerals t.leaves := fun text mem => (documented.2.1 text mem).isNumeral
    exact Statement.ofSql_toSql.trans ⟨fun readable => readable.1, fun shaped => ⟨shaped, numerals, documented.2.2⟩⟩
  · have numerals : Leaf.Numerals e.leaves := fun text mem => (documented.2.1 text mem).isNumeral
    exact ⟨fun h => (condition_readable h).1,
      fun shaped => (Expr.readsAll_toSql.mpr ⟨shaped, numerals, documented.2.2⟩).1⟩

private def selectOne : Statement :=
  ⟨none, .block ⟨.unspecified, [⟨.number "1", none⟩], [], none, none, none⟩, []⟩

private theorem selectOne_shaped {values : List Expr → Prop} : selectOne.Shaped values :=
  ⟨trivial, ⟨by simp, ⟨trivial, trivial⟩, trivial, trivial, trivial, trivial⟩, trivial⟩

private theorem isNumber_one {ls : List Leaf} (only : ∀ l ∈ ls, ∀ text, l = .number text → text = "1")
    (text : String) (mem : Leaf.number text ∈ ls) : IsNumber text := by
  obtain rfl := only _ mem text rfl
  exact ⟨_, _, rfl, rfl, rfl, rfl⟩

/-- A subquery among two values, in a query and as a condition. -/
theorem documented_round_trip_values :
    let e : Expr := .inValues false (.parameter 1) [.subquery selectOne, .parameter 2]
    let t : Statement := ⟨none, .block ⟨.all, [⟨e, some "a"⟩], [], none, none, none⟩, []⟩
    (Parse.Entry.query.Documented t ∧ Statement.ofSql t.toSql = .ok t) ∧
      Parse.Entry.condition.Documented e ∧ Expr.ofSql e.toSql = .ok e := by
  intro e t
  have shaped : ∀ {values : List Expr → Prop}, values [.subquery selectOne, .parameter 2] → e.Shaped values :=
    fun holds => ⟨holds, trivial, selectOne_shaped, trivial, trivial⟩
  have whole : ∀ {values : List Expr → Prop}, e.Shaped values → t.Shaped values :=
    fun holds => ⟨trivial, ⟨by simp, ⟨holds, trivial⟩, trivial, trivial, trivial, trivial⟩, trivial⟩
  have some_ : [Expr.subquery selectOne, .parameter 2] ≠ [] := by simp
  have values : Expr.AreValues [.subquery selectOne, .parameter 2] := ⟨some_, by simp⟩
  have leaves : e.leaves = [.parameter 1, .number "1", .parameter 2] := rfl
  have query : Parse.Entry.query.Documented t :=
    ⟨whole (shaped some_), isNumber_one
      (show ∀ l ∈ e.leaves ++ [.name "a"], ∀ text, l = .number text → text = "1" by simp [leaves]), rfl⟩
  have documented : e.Shaped fun values => values ≠ [] := shaped some_
  have condition : Parse.Entry.condition.Documented e :=
    ⟨documented, isNumber_one
      (show ∀ l ∈ e.leaves, ∀ text, l = .number text → text = "1" by simp [leaves]), rfl⟩
  exact ⟨⟨query, ((documented_round_trip t e).1 query).mpr (whole (shaped values))⟩, condition,
    ((documented_round_trip t e).2 condition).mpr (shaped values)⟩

/-- A list of values of an `IN` that is a single query in parentheses has the documented shape, and is read
back as a query. -/
theorem lone_subquery_not_round_trip :
    let e : Expr := .inValues false (.column ["a"] false) [.subquery selectOne]
    Parse.Entry.condition.Documented e ∧
      Expr.ofSql e.toSql = .ok (.inQuery false (.column ["a"] false) selectOne) ∧
      Expr.ofSql e.toSql ≠ .ok e := by
  intro e
  have text : e.toSql = "a IN ((SELECT 1))" := by decide +kernel
  have read : Expr.ofSql e.toSql = .ok (.inQuery false (.column ["a"] false) selectOne) := by
    rw [text]
    rfl
  have leaves : e.leaves = [.name "a", .number "1"] := rfl
  have column : ["a"] = [] → false = true := by simp
  refine ⟨⟨⟨by simp, column, selectOne_shaped, trivial⟩, isNumber_one ?_, rfl⟩, read, ?_⟩
  · show ∀ l ∈ e.leaves, ∀ text, l = .number text → text = "1"
    simp [leaves]
  · rw [read]
    simp [e]

end SelectSyntax
