import SelectSyntax.Proofs.Completeness.Basic

/-!
What phrases start with, and how far a word tells the readings of a parenthesis apart before they are read.
-/

set_option autoImplicit false
set_option relaxedAutoImplicit false

namespace SelectSyntax.Parse

open Grammar (anyReading firstReading)
open Token (Kind Keyword)
open SyntaxTree

section
variable {allows : Grammar.Allows} {s t : State}

theorem path_starts {names : List String} (reads : Reads allows s Grammar.path names t) :
    s.kind = .identifier := by
  obtain ⟨_, _, _, _, first, _⟩ := Reads.separated_iff.mp reads
  exact (Reads.name_iff.mp first).2.1

theorem chain_starts {operator : Kind → Option BinaryOp} {F : Form Expr} {e : Expr}
    (reads : Reads allows s (Form.chain operator F) e t) : ∃ a m, Reads allows s F a m := by
  obtain ⟨_, _, m, head, _⟩ := Reads.seq_iff.mp reads
  obtain ⟨first, operand, _⟩ := Reads.map_iff.mp head
  exact ⟨first, m, operand⟩

theorem column_starts {e : Expr} (reads : Reads allows s Grammar.column e t) :
    s.kind = .identifier ∨ s.kind = .star := by
  simp only [Grammar.column, Reads.or_iff, Reads.map_iff, Reads.seqLeft_iff] at reads
  rcases reads with ⟨_, m, ⟨names, points, _⟩, star⟩ | ⟨_, names, _⟩
  · cases names with
    | nil =>
        obtain ⟨_, rfl⟩ := Reads.many_nil_iff.mp points
        exact Or.inr ((Reads.mark_iff ⟨rfl, by simp⟩).mp star).2.1
    | cons name names =>
        obtain ⟨_, point, _⟩ := Reads.many_cons_iff.mp points
        obtain ⟨_, _, first, _⟩ := Reads.seqLeft_iff.mp point
        exact Or.inl (Reads.name_iff.mp first).2.1
  · exact Or.inl (path_starts names)

/-- A primary starts with no parenthesis, or it is a phrase between parentheses. -/
theorem primary_opens {e : Expr} (reads : Reads allows s Grammar.primary e t) :
    (s.kind ∈ rowStart ∧ s.kind ≠ .leftParen) ∨
      Reads allows s Grammar.parenthesis e t := by
  simp only [Grammar.primary, Reads.or_iff] at reads
  rcases reads with reads | reads | reads | reads | reads | reads | reads
  · simp only [Grammar.literal, Reads.or_iff, Reads.map_iff, Reads.word_iff] at reads
    rcases reads with ⟨_, number, _⟩ | ⟨_, string, _⟩ | ⟨_, word, _⟩ | ⟨_, word, _⟩ | ⟨_, word, _⟩
    · simp [((Reads.text_iff ⟨rfl, by simp⟩).mp number).2.1, rowStart]
    · simp [((Reads.text_iff ⟨rfl, by simp⟩).mp string).2.1, rowStart]
    all_goals simp [word.2.1, rowStart]
  · simp [(Reads.parameter_iff.mp reads).2.1, rowStart]
  · simp only [Grammar.signed, Reads.or_iff, Reads.map_iff, Reads.seqRight_iff] at reads
    rcases reads with ⟨_, ⟨_, _, sign, _⟩, _⟩ | ⟨_, ⟨_, _, sign, _⟩, _⟩ <;>
      simp [((Reads.mark_iff ⟨rfl, by simp⟩).mp sign).2.1, rowStart]
  · simp only [Grammar.case, Reads.seqLeft_iff, Reads.seq_iff, Reads.map_iff, Reads.seqRight_iff,
      Reads.word_iff] at reads
    obtain ⟨_, _, ⟨_, _, _, ⟨_, _, _, ⟨_, _, _, ⟨_, ⟨_, _, word, _⟩, _⟩, _⟩, _⟩, _⟩, _⟩ := reads
    simp [word.2.1, rowStart]
  · rcases column_starts reads with kind | kind <;> simp [kind, rowStart]
  · simp only [Grammar.call, Reads.seq_iff, Reads.map_iff, Reads.or_iff] at reads
    obtain ⟨_, _, _, ⟨_, names | ⟨_, word, _⟩, _⟩, _⟩ := reads
    · simp [path_starts names, rowStart]
    · obtain ⟨j, kind, isName, _⟩ := Reads.functionWord_iff.mp word
      rw [kind]
      cases j <;> simp_all [rowStart, Keyword.isFunctionName]
  · exact Or.inr reads

theorem primary_starts {e : Expr} (reads : Reads allows s Grammar.primary e t) : s.kind ∈ rowStart := by
  rcases primary_opens reads with plain | inside
  · exact plain.1
  · simp [(Reads.prefer_iff.mp inside).2.1, rowStart]

theorem row_starts {e : Expr} (reads : Reads allows s Form.row e t) : s.kind ∈ rowStart := by
  obtain ⟨_, _, product⟩ := chain_starts (Reads.row_iff.mp reads)
  obtain ⟨_, _, power⟩ := chain_starts product
  obtain ⟨_, _, primary⟩ := chain_starts power
  exact primary_starts primary

theorem truthTest_starts {e : Expr} (reads : Reads allows s Grammar.truthTest e t) :
    s.kind ∈ .keyword .EXISTS :: rowStart := by
  obtain ⟨_, _, m, head, _⟩ := Reads.seq_iff.mp reads
  obtain ⟨_, predicate, _⟩ := Reads.map_iff.mp head
  rcases Reads.or_iff.mp predicate with query | row
  · obtain ⟨_, query, _⟩ := Reads.map_iff.mp query
    obtain ⟨_, _, word, _⟩ := Reads.seqRight_iff.mp query
    exact List.mem_cons.mpr (Or.inl (Reads.word_iff.mp word).2.1)
  · obtain ⟨_, _, _, head, _⟩ := Reads.seq_iff.mp row
    obtain ⟨_, row, _⟩ := Reads.map_iff.mp head
    exact List.mem_cons_of_mem _ (row_starts row)

theorem negation_starts {e : Expr} (reads : Reads allows s Grammar.negation e t) :
    s.kind ∈ conditionStart := by
  rcases Reads.or_iff.mp reads with not | test
  · obtain ⟨_, not, _⟩ := Reads.map_iff.mp not
    obtain ⟨_, _, word, _⟩ := Reads.seqRight_iff.mp not
    exact List.mem_cons.mpr (Or.inl (Reads.word_iff.mp word).2.1)
  · exact List.mem_cons_of_mem _ (truthTest_starts test)

theorem condition_starts {e : Expr} (reads : Reads allows s (Form.construct .condition) e t) :
    s.kind ∈ conditionStart := by
  obtain ⟨_, _, conjunction⟩ := chain_starts (Reads.construct_iff.mp reads)
  obtain ⟨_, _, negation⟩ := chain_starts conjunction
  exact negation_starts negation

theorem selectBlock_starts {b : SelectBlock} (reads : Reads allows s Grammar.selectBlock b t) :
    s.kind = .keyword .SELECT := by
  simp only [Grammar.selectBlock, Reads.seq_iff, Reads.map_iff, Reads.seqRight_iff,
    Reads.word_iff] at reads
  obtain ⟨_, _, _, ⟨_, _, _, ⟨_, _, _, ⟨_, _, _, ⟨_, _, _, ⟨_, ⟨_, _, word, _⟩, _⟩, _⟩, _⟩, _⟩, _⟩, _⟩ :=
    reads
  exact word.2.1

theorem bodyPrimary_starts {b : Body} (reads : Reads allows s Grammar.bodyPrimary b t) :
    s.kind = .keyword .SELECT ∨ s.kind = .leftParen := by
  rcases Reads.or_iff.mp reads with block | inside
  · obtain ⟨_, block, _⟩ := Reads.map_iff.mp block
    exact Or.inl (selectBlock_starts block)
  · exact Or.inr (Reads.parens_iff.mp inside).2.1

theorem setChain_starts {operator : Kind → Option SetOp} {F : Form Body} {b : Body}
    (reads : Reads allows s (Grammar.setChain operator F) b t) : ∃ a m, Reads allows s F a m := by
  obtain ⟨_, _, m, head, _⟩ := Reads.seq_iff.mp reads
  obtain ⟨first, operand, _⟩ := Reads.map_iff.mp head
  exact ⟨first, m, operand⟩

theorem body_starts {b : Body} (reads : Reads allows s Grammar.body b t) :
    s.kind = .keyword .SELECT ∨ s.kind = .leftParen := by
  obtain ⟨_, _, term⟩ := setChain_starts reads
  obtain ⟨_, _, primary⟩ := setChain_starts term
  exact bodyPrimary_starts primary

theorem withClause_starts {c : WithClause} (reads : Reads allows s Grammar.withClause c t) :
    s.kind = .keyword .WITH := by
  obtain ⟨_, _, _, head, _⟩ := Reads.seq_iff.mp reads
  obtain ⟨_, words, _⟩ := Reads.map_iff.mp head
  obtain ⟨_, _, word, _⟩ := Reads.seqRight_iff.mp words
  exact (Reads.word_iff.mp word).2.1

theorem query_starts {q : Statement} (reads : Reads allows s (Form.construct .query) q t) :
    startsQuery s.kind = true := by
  obtain ⟨_, _, m, head, _⟩ := Reads.seq_iff.mp (Reads.construct_iff.mp reads)
  obtain ⟨_, _, u, head, body, _⟩ := Reads.seq_iff.mp head
  obtain ⟨_, head, _⟩ := Reads.map_iff.mp head
  rcases Reads.optional_iff.mp head with ⟨_, _, clause⟩ | ⟨_, _, rfl⟩
  · simp [withClause_starts clause, startsQuery]
  · rcases body_starts body with kind | kind <;> simp [kind, startsQuery]

theorem tablePrimary_starts {e : TableRef} (reads : Reads allows s Grammar.tablePrimary e t) :
    s.kind = .identifier ∨ s.kind = .leftParen := by
  simp only [Grammar.tablePrimary, Reads.or_iff, Reads.seq_iff, Reads.map_iff, Reads.parens_iff] at reads
  rcases reads with ⟨_, _, _, ⟨_, path, _⟩, _⟩ | ⟨_, _, _, ⟨_, _, _, ⟨_, query, _⟩, _⟩, _⟩ | inside
  · exact Or.inl (path_starts path)
  · exact Or.inr query.2.1
  · exact Or.inr inside.2.1

/-- The words in front of `JOIN` are found by the parser of them. -/
theorem joinSide_run {side : JoinSide} (reads : Reads allows s Grammar.joinSide side t)
    (join : t.kind = .keyword .JOIN) : joinSide? s = .ok (some side) t ∧
      s.kind ∈ [Kind.keyword .INNER, .keyword .LEFT, .keyword .RIGHT, .keyword .FULL,
        .keyword .JOIN] := by
  -- an outer join
  have outer : ∀ {make : Bool → JoinSide} {j : Keyword}, Reads allows s
      (make <$> (Form.word j *> Form.flag .OUTER)) side t → s.kind = .keyword j ∧
        (do
          advance
          let outer ← eat (.keyword .OUTER)
          pure (some (make outer)) : Parser (Option JoinSide)) s = .ok (some side) t := by
    intro make j reads
    obtain ⟨b, words, rfl⟩ := Reads.map_iff.mp reads
    obtain ⟨_, m, word, flag⟩ := Reads.seqRight_iff.mp words
    obtain ⟨_, kind, rfl⟩ := Reads.word_iff.mp word
    refine ⟨kind, bind_eq_ok.mpr ⟨(), _, rfl, bind_eq_ok.mpr ⟨b, t, ?_, rfl⟩⟩⟩
    rcases (Reads.flag_iff.mp flag).2 with ⟨rfl, outer, rfl⟩ | ⟨rfl, rfl⟩
    · exact eat_of_kind outer
    · exact eat_of_ne (by simp [join])
  have looked : ∀ j, s.kind = j → kind s = .ok j s := fun j same => same ▸ rfl
  simp only [Grammar.joinSide, Reads.or_iff] at reads
  rcases reads with inner | left | right | full | plain
  · obtain ⟨_, word, rfl⟩ := Reads.map_iff.mp inner
    obtain ⟨_, kind, rfl⟩ := Reads.word_iff.mp word
    exact ⟨bind_eq_ok.mpr ⟨_, s, looked _ kind, rfl⟩, by simp [kind]⟩
  · obtain ⟨kind, run⟩ := outer left
    exact ⟨bind_eq_ok.mpr ⟨_, s, looked _ kind, run⟩, by simp [kind]⟩
  · obtain ⟨kind, run⟩ := outer right
    exact ⟨bind_eq_ok.mpr ⟨_, s, looked _ kind, run⟩, by simp [kind]⟩
  · obtain ⟨kind, run⟩ := outer full
    exact ⟨bind_eq_ok.mpr ⟨_, s, looked _ kind, run⟩, by simp [kind]⟩
  · obtain ⟨_, rfl, rfl⟩ := Reads.pure_iff.mp plain
    exact ⟨bind_eq_ok.mpr ⟨_, _, looked _ join, rfl⟩, by simp [join]⟩

theorem conditionedJoin_run {k : JoinKind} (reads : Reads allows s Grammar.conditionedJoin k t) :
    joinKind? s = .ok (some k) t ∧ k.requiresCondition = true ∧ s.kind ∈ joinStart ∧
      t.remaining < s.remaining := by
  obtain ⟨_, m, head, word⟩ := Reads.seqLeft_iff.mp reads
  obtain ⟨side, words, rfl⟩ := Reads.map_iff.mp head
  obtain ⟨complete, join, rfl⟩ := Reads.word_iff.mp word
  obtain ⟨run, start⟩ := joinSide_run words join
  have fewer := words.remaining_le
  have fewer' := complete.remaining_advance (by rw [join]; rfl)
  refine ⟨?_, rfl, ?_, by omega⟩
  · exact bind_eq_ok.mpr ⟨false, s, eat_of_ne (by rintro h; simp [h] at start), bind_eq_ok.mpr
      ⟨false, s, eat_of_ne (by rintro h; simp [h] at start), bind_eq_ok.mpr ⟨some side, m, run,
      bind_eq_ok.mpr ⟨true, _, eat_of_kind join, rfl⟩⟩⟩⟩
  · simp only [joinStart, List.mem_cons, List.not_mem_nil, or_false] at start ⊢
    exact Or.inr (Or.inr start)

theorem plainJoin_run {k : JoinKind} (reads : Reads allows s Grammar.plainJoin k t) :
    joinKind? s = .ok (some k) t ∧ k.requiresCondition = false ∧ s.kind ∈ joinStart ∧
      t.remaining < s.remaining := by
  rcases Reads.or_iff.mp reads with cross | natural
  · obtain ⟨_, words, rfl⟩ := Reads.map_iff.mp cross
    obtain ⟨_, m, word, last⟩ := Reads.seqRight_iff.mp words
    obtain ⟨complete, kind, rfl⟩ := Reads.word_iff.mp word
    obtain ⟨_, join, rfl⟩ := Reads.word_iff.mp last
    have fewer := complete.remaining_advance (by rw [kind]; rfl)
    have fewer' := s.advance.advance_within.remaining_le
    exact ⟨bind_eq_ok.mpr ⟨true, _, eat_of_kind kind, bind_eq_ok.mpr ⟨(), _, expect_of_kind join, rfl⟩⟩,
      rfl, by simp [kind, joinStart], by omega⟩
  · obtain ⟨_, m, head, last⟩ := Reads.seqLeft_iff.mp natural
    obtain ⟨side, both, rfl⟩ := Reads.map_iff.mp head
    obtain ⟨_, u, word, words⟩ := Reads.seqRight_iff.mp both
    obtain ⟨complete, kind, rfl⟩ := Reads.word_iff.mp word
    obtain ⟨_, join, rfl⟩ := Reads.word_iff.mp last
    obtain ⟨run, _⟩ := joinSide_run words join
    have fewer := complete.remaining_advance (by rw [kind]; rfl)
    have fewer' := words.remaining_le
    have fewer'' := m.advance_within.remaining_le
    exact ⟨bind_eq_ok.mpr ⟨false, s, eat_of_ne (by simp [kind]), bind_eq_ok.mpr ⟨true, _,
      eat_of_kind kind, bind_eq_ok.mpr ⟨some side, m, run, bind_eq_ok.mpr ⟨true, _,
      eat_of_kind join, rfl⟩⟩⟩⟩, rfl, by simp [kind, joinStart], by omega⟩

end

section
variable {allows : Grammar.Allows} {s t : State}

private theorem setChain_head {operator : Kind → Option SetOp} {F : Form Body} {b : Body}
    (single : ∀ k op, operator k = some op → Reads.Single k)
    (reads : Reads allows s (Grammar.setChain operator F) b t) :
    ∃ a m, Reads allows s F a m ∧ (m = t ∨ (operator m.kind).isSome) := by
  obtain ⟨_, rest, m, head, others, _⟩ := Reads.seq_iff.mp reads
  obtain ⟨first, operand, _⟩ := Reads.map_iff.mp head
  refine ⟨first, m, operand, ?_⟩
  cases rest with
  | nil =>
      obtain ⟨_, rfl⟩ := Reads.many_nil_iff.mp others
      exact Or.inl rfl
  | cons a rest =>
      obtain ⟨_, tail, _⟩ := Reads.many_cons_iff.mp others
      obtain ⟨_, _, _, tail, _⟩ := Reads.seq_iff.mp tail
      obtain ⟨_, _, _, tail, _⟩ := Reads.seq_iff.mp tail
      obtain ⟨_, sign, _⟩ := Reads.map_iff.mp tail
      exact Or.inr (by rw [((Reads.oneOf_iff single).mp sign).2.1]; rfl)

/-- Kinds that may follow the parenthesis at the start of a query body. -/
def goesOnBody (k : Kind) : Prop :=
  k = .rightParen ∨ k = .keyword .ORDER ∨ (unionOrExcept? k).isSome ∨ (intersect? k).isSome

/-- A query body that starts with a parenthesis holds a body up to the closing one. -/
theorem body_opens {b : Body} (reads : Reads allows s Grammar.body b t)
    (opens : s.kind = .leftParen) (halts : goesOnBody t.kind) :
    ∃ inner m, Reads allows s.advance (Form.construct .body) inner m ∧ m.kind = .rightParen ∧
      goesOnBody m.advance.kind := by
  rw [Grammar.body_eq] at reads
  obtain ⟨_, u, term, next⟩ := setChain_head unionOrExcept?_operators.single reads
  have second : goesOnBody u.kind := by
    rcases next with rfl | next
    · exact halts
    · exact Or.inr (Or.inr (Or.inl next))
  rw [Grammar.term_eq] at term
  obtain ⟨_, m, primary, next⟩ := setChain_head intersect?_operators.single term
  have first : goesOnBody m.kind := by
    rcases next with rfl | next
    · exact second
    · exact Or.inr (Or.inr (Or.inr next))
  rcases Reads.or_iff.mp primary with block | inside
  · obtain ⟨_, block, _⟩ := Reads.map_iff.mp block
    simp [selectBlock_starts block] at opens
  · obtain ⟨_, _, v, inner, closes, rfl⟩ := Reads.parens_iff.mp inside
    exact ⟨_, v, inner, closes, first⟩

/-- No phrase before a closing parenthesis is a query body as well as a table reference. -/
private theorem body_not_table (n : Nat) {allows' : Grammar.Allows} {s t t' : State} {b : Body}
    {e : TableRef} (less : s.remaining < n) (body : Reads allows s Grammar.body b t)
    (halts : goesOnBody t.kind) (table : Reads allows' s (Form.construct .table) e t') : False := by
  induction n generalizing s t t' b e with
  | zero => omega
  | succ n ih =>
      obtain ⟨_, joins, u, head, others, _⟩ := Reads.seq_iff.mp (Reads.construct_iff.mp table)
      obtain ⟨_, head, _⟩ := Reads.map_iff.mp head
      have opens : s.kind = .leftParen := by
        rcases body_starts body, tablePrimary_starts head with ⟨h | h, h' | h'⟩ <;> simp_all
      obtain ⟨inner, m, inside, closes, next⟩ := body_opens body opens halts
      have fewer := body.1.remaining_advance (by rw [opens]; rfl)
      simp only [Grammar.tablePrimary, Reads.or_iff, Reads.seq_iff, Reads.map_iff] at head
      rcases head with ⟨_, _, _, ⟨_, path, _⟩, _⟩ | ⟨_, _, v, ⟨_, name, w, ⟨_, query, _⟩, renamed, _⟩, _⟩ | inner'
      · have identifier := path_starts path
        simp [opens] at identifier
      · obtain ⟨_, _, m', inside', closes', rfl⟩ := Reads.parens_iff.mp query
        obtain rfl := inside.closing_unique inside' closes closes'
        rcases nameAfterAs_starts renamed with kind | kind <;>
          simp [goesOnBody, kind, unionOrExcept?, intersect?] at next
      · obtain ⟨_, _, m', inside', closes', _⟩ := Reads.parens_iff.mp inner'
        exact ih (by omega) (Reads.construct_iff.mp inside) (Or.inl closes) inside'

/-- A query without `WITH` is its body up to the keys that it is ordered by. -/
theorem query_body {q : Statement} (query : Reads allows s (Form.construct .query) q t)
    (closes : t.kind = .rightParen) (other : s.kind ≠ .keyword .WITH) :
    ∃ u, Reads allows s Grammar.body q.body u ∧ goesOnBody u.kind := by
  obtain ⟨_, _, m, front, last, rfl⟩ := Reads.seq_iff.mp (Reads.construct_iff.mp query)
  obtain ⟨_, _, u, head, body, rfl⟩ := Reads.seq_iff.mp front
  obtain ⟨_, clause, rfl⟩ := Reads.map_iff.mp head
  rcases Reads.optional_iff.mp clause with ⟨_, _, clause⟩ | ⟨_, _, rfl⟩
  · exact absurd (withClause_starts clause) other
  · refine ⟨m, body, ?_⟩
    rcases Reads.or_iff.mp last with order | none
    · obtain ⟨_, _, word, _⟩ := Reads.seqRight_iff.mp order
      obtain ⟨_, _, word, _⟩ := Reads.seqRight_iff.mp word
      exact Or.inr (Or.inl (Reads.word_iff.mp word).2.1)
    · obtain ⟨_, _, rfl⟩ := Reads.pure_iff.mp none
      exact Or.inl closes

/-- No phrase before a closing parenthesis is a query as well as a table reference. -/
theorem query_not_table {allows' : Grammar.Allows} {q : Statement} {e : TableRef}
    (query : Reads allows s (Form.construct .query) q t) (closes : t.kind = .rightParen)
    (table : Reads allows' s (Form.construct .table) e t) : False := by
  have other : s.kind ≠ .keyword .WITH := by
    intro clause
    obtain ⟨_, _, _, first, _⟩ := Reads.seq_iff.mp (Reads.construct_iff.mp table)
    obtain ⟨_, first, _⟩ := Reads.map_iff.mp first
    rcases tablePrimary_starts first with kind | kind <;> simp [clause] at kind
  obtain ⟨_, body, halts⟩ := query_body query closes other
  exact body_not_table _ (Nat.lt_succ_self _) body halts table

end

section
variable {n : Nat} {i : Inner}
  (exact : ∀ e, Exact n (i e) (Form.construct e) e.ends)
include exact

theorem parenthesized_query {α : Type} {other : Parser α} {s m : State} {q : Statement}
    (opens : s.kind = .leftParen) (less : s.remaining < n + 1)
    (reads : Reads firstReading s.advance (Form.construct .query) q m) (closes : m.kind = .rightParen)
    (complete : s.Complete) :
    parenthesized (i .query) other s = .ok (.inl q) m.advance := by
  have fewer := complete.remaining_advance (by rw [opens]; rfl)
  have first := exact .query s.advance q m (by omega) reads (by rw [closes]; rfl)
  exact parenthesized_of_query opens (query_starts reads) (closed_of_kind first closes)

theorem conditions_exact :
    Exact n (conditions i) Grammar.conditions fun k => endsCondition k && k != .comma :=
  (exact .condition).separated ⟨rfl, by simp⟩ rfl

variable (sound : Forward (i .query) ∧ Sound anyReading n (i .query) (Form.construct .query))
include sound

omit exact in
/-- Where no query is read up to the closing parenthesis, the other reading is taken. -/
theorem parenthesized_other {α : Type} {other : Parser α} {H : Form α} {s m : State} {a : α}
    (opens : s.kind = .leftParen) (less : s.remaining < n + 1) (complete : s.Complete)
    (none : ¬∃ q, Reads anyReading s.advance (Form.construct .query) q m)
    (reads : Reads firstReading s.advance H a m) (closes : m.kind = .rightParen)
    (run : other s.advance = .ok a m) : parenthesized (i .query) other s = .ok (.inr a) m.advance := by
  have fewer := complete.remaining_advance (by rw [opens]; rfl)
  have second : closed other s.advance = .ok a m.advance := closed_of_kind run closes
  cases starts : startsQuery s.advance.kind with
  | false =>
      rw [parenthesized_of_no_query opens starts]
      exact map_of_ok second
  | true =>
      cases first : closed (i .query) s.advance with
      | error f u => exact parenthesized_of_other (sound.1.returns_closed complete) opens starts first second
      | ok q u =>
          obtain ⟨m', read, closes', _⟩ := closed_eq_ok.mp first
          have query := sound.2 s.advance q m' reads.1 (by omega) read
          obtain rfl := query.closing_unique reads closes' closes
          exact absurd ⟨q, query⟩ none

theorem parenthesized_exact {α β : Type} {other : Parser α} {H : Form α} {ends : Kind → Bool}
    {f : Statement ⊕ α → β} {s t : State} {e : β} (second : Exact n other H ends)
    (closing : ends .rightParen = true) (less : s.remaining < n + 1)
    (reads : Reads firstReading s (.prefer (Form.construct .query) H f) e t) :
    ∃ x, parenthesized (i .query) other s = .ok x t ∧ e = f x := by
  obtain ⟨complete, opens, m, closes, rfl, ⟨q, query, rfl⟩ | ⟨a, permits, inside, rfl⟩⟩ :=
    Reads.prefer_iff.mp reads
  · exact ⟨.inl q, parenthesized_query exact opens less query closes complete, rfl⟩
  · have fewer := complete.remaining_advance (by rw [opens]; rfl)
    obtain ⟨_, w, spells, _⟩ := id inside
    have none := (permits_first_iff inside.1 ⟨w, spells⟩).mp permits
    have run := second s.advance a m (by omega) inside (by rw [closes]; exact closing)
    exact ⟨.inr a, parenthesized_other sound opens less complete none inside closes run, rfl⟩

end

end SelectSyntax.Parse
