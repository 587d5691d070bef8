import SelectSyntax.Proofs.Completeness.Table

/-!
What is derived is accepted: where the form of a construct is read with first readings preferred, and the token
after it cannot go on with it, the construct under a high enough limit reads the same value up to the same state.
-/

set_option autoImplicit false
set_option relaxedAutoImplicit false

namespace SelectSyntax.Parse

open Grammar (anyReading firstReading)
open Token (Kind Keyword)
open SyntaxTree

section
variable {n : Nat} {i : Inner}
  (exact : ∀ e, Exact n (i e) (Form.construct e) e.ends)
include exact

variable (sound : Forward (i .query) ∧ Sound anyReading n (i .query) (Form.construct .query))
include sound

omit exact sound in
private theorem setQuantifier_exact {s t : State} {q : SetQuantifier}
    (reads : Reads firstReading s Grammar.setQuantifier q t) (none : setQuantifier? t.kind = none) :
    setQuantifier s = .ok q t := by
  rcases (Reads.setQuantifier_iff.mp reads).2 with ⟨value, rfl⟩ | ⟨rfl, rfl⟩
  · exact bind_eq_ok.mpr ⟨some q, _, take?_eq_ok.mpr (Or.inl ⟨q, rfl, value, rfl⟩), rfl⟩
  · exact bind_eq_ok.mpr ⟨_, _, take?_eq_ok.mpr (Or.inr ⟨rfl, none, rfl⟩), rfl⟩

omit exact sound in
private theorem two_words {j k : Keyword} {s t : State} {x : Unit}
    (reads : Reads firstReading s (Form.word j *> Form.word k) x t) :
    s.kind = .keyword j ∧ s.advance.kind = .keyword k ∧ t = s.advance.advance := by
  obtain ⟨_, m, first, second⟩ := Reads.seqRight_iff.mp reads
  obtain ⟨_, kind, rfl⟩ := Reads.word_iff.mp first
  obtain ⟨_, kind', rfl⟩ := Reads.word_iff.mp second
  exact ⟨kind, kind', rfl⟩

omit exact sound in
private theorem setQuantifier?_none {k : Kind} (start : k ∈ .keyword .SELECT :: rowStart) :
    setQuantifier? k = none := by
  unfold setQuantifier?
  split <;> first | rfl | (simp [rowStart] at start)

private theorem orderItem_exact : Exact (n + 1) (orderItem i) Grammar.orderItem
    fun k => endsRow k && (direction? k).isNone := by
  intro s e t less reads halts
  simp only [Bool.and_eq_true, Option.isNone_iff_eq_none] at halts
  obtain ⟨_, d, m, head, last, rfl⟩ := Reads.seq_iff.mp reads
  obtain ⟨key, first, rfl⟩ := Reads.map_iff.mp head
  rcases (Reads.direction_iff.mp last).2 with ⟨value, rfl⟩ | ⟨rfl, rfl⟩
  · have run := row_exact exact sound s key m less first (direction?_ends _ _ value)
    exact bind_eq_ok.mpr ⟨key, m, run, bind_eq_ok.mpr ⟨some d, _,
      take?_eq_ok.mpr (Or.inl ⟨d, rfl, value, rfl⟩), rfl⟩⟩
  · have run := row_exact exact sound s key t less first halts.1
    exact bind_eq_ok.mpr ⟨key, t, run, bind_eq_ok.mpr ⟨none, _,
      take?_eq_ok.mpr (Or.inr ⟨rfl, halts.2, rfl⟩), rfl⟩⟩

private theorem projection_exact :
    Exact (n + 1) (projection i) Grammar.projection endsProjection := by
  intro s e t less reads halts
  simp only [endsProjection, Bool.and_eq_true, bne_iff_ne] at halts
  obtain ⟨⟨ends, noAs⟩, noName⟩ := halts
  obtain ⟨_, o, m, head, last, rfl⟩ := Reads.seq_iff.mp reads
  obtain ⟨value, first, rfl⟩ := Reads.map_iff.mp head
  have fewer := first.remaining_le
  have halts : endsRow m.kind = true := by
    rcases Reads.optional_iff.mp last with ⟨_, _, present⟩ | ⟨_, _, rfl⟩
    · rcases nameAfterAs_starts present with kind | kind <;> (rw [kind]; rfl)
    · exact ends
  have second := optionalAlias_exact (n := n + 1) m o t (by omega) last (by simp [noAs, noName])
  exact bind_eq_ok.mpr ⟨value, m, row_exact exact sound s value m less first halts, bind_eq_ok.mpr
    ⟨o, t, second, rfl⟩⟩

omit sound in
private theorem tables_exact : Exact (n + 1) (tables i) Grammar.tables
    fun k => endsTable k && k != .comma && k != .keyword .FROM := by
  intro s e t less reads halts
  simp only [Bool.and_eq_true, bne_iff_ne] at halts
  rcases Reads.or_iff.mp reads with from_ | none
  · obtain ⟨kind, fewer, inside⟩ := Reads.mark_strict ⟨rfl, by simp⟩ from_
    have fewer := from_.1.remaining_advance (by rw [kind]; rfl)
    have items := (exact .table).separated (k := .comma) ⟨rfl, by simp⟩ rfl
    exact bind_eq_ok.mpr ⟨true, _, eat_of_kind kind,
      items _ e t (by omega) inside (by simpa [Entry.ends] using halts.1)⟩
  · obtain ⟨_, rfl, rfl⟩ := Reads.pure_iff.mp none
    exact bind_eq_ok.mpr ⟨false, _, eat_of_ne halts.2, rfl⟩

private theorem grouping?_exact : Exact (n + 1) (grouping? i) (Form.optional Grammar.grouping)
    fun k => endsRow k && k != .comma && k != .keyword .GROUP := by
  intro s o t less reads halts
  simp only [Bool.and_eq_true, bne_iff_ne] at halts
  rcases Reads.optional_iff.mp reads with ⟨a, rfl, present⟩ | ⟨rfl, _, rfl⟩
  · obtain ⟨_, items, u, head, last, rfl⟩ := Reads.seq_iff.mp present
    obtain ⟨q, words, rfl⟩ := Reads.map_iff.mp head
    obtain ⟨_, m, both, quantifier⟩ := Reads.seqRight_iff.mp words
    obtain ⟨kind, by_, rfl⟩ := two_words both
    obtain ⟨_, _, _, _, first, _⟩ := Reads.separated_iff.mp last
    have none := setQuantifier?_none (List.mem_cons_of_mem _ (row_starts first))
    have fewer := words.remaining_le
    have run := (row_exact exact sound).separated (k := .comma) ⟨rfl, by simp⟩ rfl u items t (by omega)
      last (by simpa using halts.1)
    exact bind_eq_ok.mpr ⟨true, _, eat_of_kind kind, bind_eq_ok.mpr ⟨(), _, expect_of_kind by_,
      bind_eq_ok.mpr ⟨q, u, setQuantifier_exact quantifier none, bind_eq_ok.mpr ⟨items, t, run, rfl⟩⟩⟩⟩
  · exact bind_eq_ok.mpr ⟨false, t, eat_of_ne halts.2, rfl⟩

omit exact sound in
private theorem ends_before_optional {α : Type} {F : Form α} {k : Keyword} {s t : State} {o : Option α}
    (P : Kind → Bool) (reads : Reads firstReading s (Form.optional F) o t)
    (starts : ∀ a, Reads firstReading s F a t → s.kind = .keyword k)
    (here : P (.keyword k) = true) (later : P t.kind = true) : P s.kind = true := by
  rcases Reads.optional_iff.mp reads with ⟨a, _, present⟩ | ⟨_, _, rfl⟩
  · rw [starts a present]
    exact here
  · exact later

omit exact sound in
private theorem clause_starts {k : Keyword} {s t : State} {e : Expr}
    (reads : Reads firstReading s (Form.word k *> Form.construct .condition) e t) :
    s.kind = .keyword k := (Reads.mark_strict ⟨rfl, by simp⟩ reads).1

omit exact sound in
private theorem grouping_starts {s t : State} {g : Grouping}
    (reads : Reads firstReading s Grammar.grouping g t) : s.kind = .keyword .GROUP := by
  obtain ⟨_, _, _, head, _⟩ := Reads.seq_iff.mp reads
  obtain ⟨_, words, _⟩ := Reads.map_iff.mp head
  obtain ⟨_, _, both, _⟩ := Reads.seqRight_iff.mp words
  exact (two_words both).1

private theorem selectBlock_exact :
    Exact (n + 1) (selectBlock i) Grammar.selectBlock endsBlock := by
  intro s e t less reads halts
  obtain ⟨_, having, y, reads₁, sixth, rfl⟩ := Reads.seq_iff.mp reads
  obtain ⟨_, grouping, x, reads₂, fifth, rfl⟩ := Reads.seq_iff.mp reads₁
  obtain ⟨_, filter, w, reads₃, fourth, rfl⟩ := Reads.seq_iff.mp reads₂
  obtain ⟨_, entries, v, reads₄, third, rfl⟩ := Reads.seq_iff.mp reads₃
  obtain ⟨_, projections, u, reads₅, second, rfl⟩ := Reads.seq_iff.mp reads₄
  obtain ⟨q, words, rfl⟩ := Reads.map_iff.mp reads₅
  obtain ⟨kind, _, first⟩ := Reads.mark_strict ⟨rfl, by simp⟩ words
  -- a kind that may come where a clause is missing, or before each of the clauses
  have atY : ∀ P : Kind → Bool, P t.kind = true → P (.keyword .HAVING) = true → P y.kind = true :=
    fun P last here => ends_before_optional P sixth (fun _ => clause_starts) here last
  have atX : ∀ P : Kind → Bool, P t.kind = true → P (.keyword .HAVING) = true →
      P (.keyword .GROUP) = true → P x.kind = true :=
    fun P last later here => ends_before_optional P fifth (fun _ => grouping_starts) here (atY P last later)
  have atW : ∀ P : Kind → Bool, P t.kind = true → P (.keyword .HAVING) = true →
      P (.keyword .GROUP) = true → P (.keyword .WHERE) = true → P w.kind = true :=
    fun P last later₁ later₂ here => ends_before_optional P fourth (fun _ => clause_starts) here
      (atX P last later₁ later₂)
  have atV : ∀ P : Kind → Bool, P t.kind = true → P (.keyword .HAVING) = true →
      P (.keyword .GROUP) = true → P (.keyword .WHERE) = true → P (.keyword .FROM) = true →
      P v.kind = true := by
    intro P last later₁ later₂ later₃ here
    rcases Reads.or_iff.mp third with from_ | none
    · rw [(Reads.mark_strict ⟨rfl, by simp⟩ from_).1]
      exact here
    · obtain ⟨_, _, rfl⟩ := Reads.pure_iff.mp none
      exact atW P last later₁ later₂ later₃
  obtain ⟨endsProjections, endsTables, endsFilter, endsGrouping, endsHaving⟩ := endsBlock_le halts
  obtain ⟨_, _, _, _, row, _⟩ := Reads.separated_iff.mp second
  obtain ⟨_, _, _, row, _⟩ := Reads.seq_iff.mp row
  obtain ⟨_, row, _⟩ := Reads.map_iff.mp row
  have none := setQuantifier?_none (List.mem_cons_of_mem _ (row_starts row))
  have fewer₁ := words.remaining_le
  have fewer₂ := second.remaining_le
  have fewer₃ := third.remaining_le
  have fewer₄ := fourth.remaining_le
  have fewer₅ := fifth.remaining_le
  have halts₂ := atV (fun j => endsProjection j && j != .comma) endsProjections rfl rfl rfl rfl
  have halts₃ := atW (fun j => endsTable j && j != .comma && j != .keyword .FROM) endsTables rfl rfl rfl
  have halts₄ := atX (fun j => endsCondition j && j != .keyword .WHERE) endsFilter rfl rfl
  have halts₅ := atY (fun j => endsRow j && j != .comma && j != .keyword .GROUP) endsGrouping rfl
  have run₂ := (projection_exact exact sound).separated (k := .comma) ⟨rfl, by simp⟩ rfl u projections v
    (by omega) second halts₂
  have run₃ := tables_exact exact v entries w (by omega) third halts₃
  have run₄ := clause_exact exact .WHERE w filter x (by omega) fourth halts₄
  have run₅ := grouping?_exact exact sound x grouping y (by omega) fifth halts₅
  have run₆ := clause_exact exact .HAVING y having t (by omega) sixth endsHaving
  exact bind_eq_ok.mpr ⟨(), _, expect_of_kind kind, bind_eq_ok.mpr ⟨q, u, setQuantifier_exact first none,
    bind_eq_ok.mpr ⟨projections, v, run₂, bind_eq_ok.mpr ⟨entries, w, run₃, bind_eq_ok.mpr
    ⟨filter, x, run₄, bind_eq_ok.mpr ⟨grouping, y, run₅, bind_eq_ok.mpr ⟨having, t, run₆, rfl⟩⟩⟩⟩⟩⟩⟩

private theorem bodyPrimary_exact :
    Exact (n + 1) (bodyPrimary i) Grammar.bodyPrimary endsBlock := by
  intro s e t less reads halts
  rcases Reads.or_iff.mp reads with plain | inside
  · obtain ⟨a, block, rfl⟩ := Reads.map_iff.mp plain
    have run := selectBlock_exact exact sound s a t less block halts
    exact bind_eq_ok.mpr ⟨.keyword .SELECT, s, kind_eq_ok.mpr ⟨(selectBlock_starts block).symm, rfl⟩,
      map_of_ok run⟩
  · have kind := (Reads.parens_iff.mp inside).2.1
    have fewer := inside.1.remaining_advance (by rw [kind]; rfl)
    exact bind_eq_ok.mpr ⟨.leftParen, s, kind_eq_ok.mpr ⟨kind.symm, rfl⟩,
      (exact .body).enclosed rfl (by omega) inside⟩

omit exact sound in
private theorem setTail_parts {operator : Kind → Option SetOp} {F : Form Body} {s t : State}
    {a : SetOp × SetQuantifier × Body} (single : ∀ k op, operator k = some op → Reads.Single k)
    (reads : Reads firstReading s ((fun op quantifier right => (op, quantifier, right)) <$>
      Form.oneOf operator <*> Grammar.setQuantifier <*> F) a t) :
    operator s.kind = some a.1 ∧ ∃ m, m.remaining < s.remaining ∧
      Reads firstReading s.advance Grammar.setQuantifier a.2.1 m ∧ Reads firstReading m F a.2.2 t := by
  obtain ⟨_, right, m, start, last, rfl⟩ := Reads.seq_iff.mp reads
  obtain ⟨_, q, u, head, second, rfl⟩ := Reads.seq_iff.mp start
  obtain ⟨op, sign, rfl⟩ := Reads.map_iff.mp head
  obtain ⟨complete, value, rfl⟩ := (Reads.oneOf_iff single).mp sign
  have plain := (single _ _ value).1
  simp only [Symbol.isPlain, Bool.and_eq_true, Bool.not_eq_true'] at plain
  have fewer := complete.remaining_advance plain.2
  have fewer' := second.remaining_le
  exact ⟨value, m, by omega, second, last⟩

section
variable {operator : Kind → Option SetOp} {p : Parser Body} {F : Form Body} {ends : Kind → Bool}
  (single : ∀ k op, operator k = some op → Reads.Single k) (h : Exact n p F ends)
  (marks : ∀ k op, operator k = some op → ends k = true)
  (starts : ∀ s b t, Reads firstReading s F b t → s.kind = .keyword .SELECT ∨ s.kind = .leftParen)
include single h marks starts

omit exact sound in
private theorem setTail?_exact : ExactItem n (setTail? operator p)
    ((fun op quantifier right => (op, quantifier, right)) <$> Form.oneOf operator <*>
      Grammar.setQuantifier <*> F) ends fun k => ends k && (operator k).isNone := by
  constructor
  · intro s a t less reads halts
    obtain ⟨value, m, fewer, quantifier, right⟩ := setTail_parts single reads
    have none : setQuantifier? m.kind = none := by
      rcases starts m a.2.2 t right with kind | kind <;> (rw [kind]; rfl)
    exact bind_eq_ok.mpr ⟨some a.1, _, take?_eq_ok.mpr (Or.inl ⟨a.1, rfl, value, rfl⟩),
      bind_eq_ok.mpr ⟨a.2.1, m, setQuantifier_exact quantifier none, bind_eq_ok.mpr
      ⟨a.2.2, t, h m a.2.2 t (by omega) right halts, rfl⟩⟩⟩
  · intro s a t reads
    obtain ⟨value, m, fewer, _, right⟩ := setTail_parts single reads
    have fewer' := right.remaining_le
    exact ⟨marks _ _ value, by omega⟩
  · intro t halts
    simp only [Bool.and_eq_true, Option.isNone_iff_eq_none] at halts
    exact ⟨halts.1, bind_eq_ok.mpr ⟨none, t, take?_eq_ok.mpr (Or.inr ⟨rfl, halts.2, rfl⟩), rfl⟩⟩

omit exact sound in
private theorem setChain_exact : Exact n (setChain operator p) (Grammar.setChain operator F)
    fun k => ends k && (operator k).isNone :=
  .withItems _ h (setTail?_exact single h marks starts)

end

theorem body_exact : Exact (n + 1) (body i) Grammar.body endsBody := by
  have term : Exact (n + 1) (setChain intersect? (bodyPrimary i)) Grammar.term
      fun k => endsBlock k && (intersect? k).isNone := by
    rw [Grammar.term_eq]
    exact setChain_exact intersect?_operators.single (bodyPrimary_exact exact sound) intersect?_ends
      fun _ _ _ => bodyPrimary_starts
  rw [Grammar.body_eq]
  refine setChain_exact unionOrExcept?_operators.single term unionOrExcept?_ends fun s b t reads => ?_
  obtain ⟨_, _, primary⟩ := setChain_starts reads
  exact bodyPrimary_starts primary

omit sound in
private theorem namedQuery_exact :
    Exact (n + 1) (namedQuery i) Grammar.namedQuery fun _ => true := by
  intro s e t less reads _
  obtain ⟨_, q, u, start, last, rfl⟩ := Reads.seq_iff.mp reads
  obtain ⟨_, columns, m, head, second, rfl⟩ := Reads.seq_iff.mp start
  obtain ⟨name, first, rfl⟩ := Reads.map_iff.mp head
  obtain ⟨kind, _, inside⟩ := Reads.mark_strict ⟨rfl, by simp⟩ last
  have fewer := first.remaining_le
  have fewer' := second.remaining_le
  have fewer'' := last.1.remaining_advance (by rw [kind]; rfl)
  have fewer₃ := u.advance.advance_within.remaining_le
  have run := identifier_exact (n := n + 1) s name m less first rfl
  have run' := optionalColumns_exact (n := n + 1) m columns u (by omega) second (by simp [kind])
  exact bind_eq_ok.mpr ⟨name, m, run, bind_eq_ok.mpr ⟨columns, u, run', bind_eq_ok.mpr ⟨true, _,
    eat_of_kind kind, bind_eq_ok.mpr ⟨q, t, (exact .query).enclosed rfl (by omega) inside, rfl⟩⟩⟩⟩

omit sound in
private theorem withClause?_exact : Exact (n + 1) (withClause? i) (Form.optional Grammar.withClause)
    fun k => k != .comma && k != .keyword .WITH := by
  intro s o t less reads halts
  simp only [Bool.and_eq_true, bne_iff_ne] at halts
  rcases Reads.optional_iff.mp reads with ⟨a, rfl, present⟩ | ⟨rfl, _, rfl⟩
  · obtain ⟨_, queries, u, head, last, rfl⟩ := Reads.seq_iff.mp present
    obtain ⟨recursive, words, rfl⟩ := Reads.map_iff.mp head
    obtain ⟨kind, _, flag⟩ := Reads.mark_strict ⟨rfl, by simp⟩ words
    have fewer := words.remaining_le
    have taken : eat (.keyword .RECURSIVE) s.advance = .ok recursive u := by
      rcases (Reads.flag_iff.mp flag).2 with ⟨rfl, word, rfl⟩ | ⟨rfl, rfl⟩
      · exact eat_of_kind word
      · obtain ⟨_, _, _, _, first, _⟩ := Reads.separated_iff.mp last
        obtain ⟨_, _, _, start, _⟩ := Reads.seq_iff.mp first
        obtain ⟨_, _, _, head, _⟩ := Reads.seq_iff.mp start
        obtain ⟨_, name, _⟩ := Reads.map_iff.mp head
        exact eat_of_ne (by simp [(Reads.name_iff.mp name).2.1])
    have run := (namedQuery_exact exact).separated (k := .comma) ⟨rfl, by simp⟩ rfl u queries t
      (by omega) last (by simpa using halts.1)
    exact bind_eq_ok.mpr ⟨true, _, eat_of_kind kind, bind_eq_ok.mpr ⟨recursive, u, taken,
      bind_eq_ok.mpr ⟨queries, t, run, rfl⟩⟩⟩
  · exact bind_eq_ok.mpr ⟨false, t, eat_of_ne halts.2, rfl⟩

private theorem orderBy_exact : Exact (n + 1) (orderBy i) Grammar.orderBy
    fun k => (endsRow k && (direction? k).isNone && k != .comma) && k != .keyword .ORDER := by
  intro s e t less reads halts
  rw [Bool.and_eq_true, bne_iff_ne] at halts
  rcases Reads.or_iff.mp reads with order | none
  · obtain ⟨_, m, both, items⟩ := Reads.seqRight_iff.mp order
    obtain ⟨kind, by_, rfl⟩ := two_words both
    have fewer := both.remaining_le
    have run := (orderItem_exact exact sound).separated (k := .comma) ⟨rfl, by simp⟩ rfl _ e t (by omega)
      items halts.1
    exact bind_eq_ok.mpr ⟨true, _, eat_of_kind kind, bind_eq_ok.mpr ⟨(), _, expect_of_kind by_, run⟩⟩
  · obtain ⟨_, rfl, rfl⟩ := Reads.pure_iff.mp none
    exact bind_eq_ok.mpr ⟨false, _, eat_of_ne halts.2, rfl⟩

theorem query_exact : Exact (n + 1) (query i) Grammar.query endsQuery := by
  intro s e t less reads halts
  obtain ⟨_, items, u, start, last, rfl⟩ := Reads.seq_iff.mp reads
  obtain ⟨_, b, m, head, second, rfl⟩ := Reads.seq_iff.mp start
  obtain ⟨clause, first, rfl⟩ := Reads.map_iff.mp head
  have fewer := first.remaining_le
  have fewer' := second.remaining_le
  have starts : (m.kind != .comma && m.kind != .keyword .WITH) = true := by
    rcases body_starts second with kind | kind <;> (rw [kind]; rfl)
  obtain ⟨endsHere, endsItems⟩ := endsQuery_le halts
  have middle : endsBody u.kind = true := by
    rcases Reads.or_iff.mp last with order | none
    · obtain ⟨_, _, both, _⟩ := Reads.seqRight_iff.mp order
      rw [(two_words both).1]
      rfl
    · obtain ⟨_, _, rfl⟩ := Reads.pure_iff.mp none
      exact endsHere
  exact bind_eq_ok.mpr ⟨clause, m, withClause?_exact exact s clause m less first starts, bind_eq_ok.mpr
    ⟨b, u, body_exact exact sound m b u (by omega) second middle, bind_eq_ok.mpr ⟨items, t,
    orderBy_exact exact sound u items t (by omega) last endsItems, rfl⟩⟩⟩

/-- The rule of a construct reads what is derived from its form. -/
theorem rule_exact (e : Entry) : Exact (n + 1) (rule i e) (Form.construct e) e.ends := by
  intro s a t less reads halts
  have inside := Reads.construct_iff.mp reads
  cases e with
  | query => exact query_exact exact sound s a t less inside halts
  | body => exact body_exact exact sound s a t less inside halts
  | condition => exact condition_exact exact sound s a t less inside halts
  | negated => exact negation_exact exact sound s a t less inside halts
  | signed =>
      have operand : Exact n (row i) Form.row endsRow := fun s a t less reads halts =>
        row_exact exact sound s a t (Nat.lt_succ_of_lt less) reads halts
      exact primary_exact exact sound (Nat.le_refl n) operand s a t less inside halts
  | table => exact table_exact exact sound s a t less inside halts

end

theorem levelled_sound_any (limit n : Nat) (e : Entry) :
    Sound anyReading n (levelled limit n e) (Form.construct e) :=
  levelled_sound (fun n _ => ⟨levelled_forward limit n .query, fun _ _ w _ _ spells _ _ => ⟨w, spells, trivial⟩⟩) n e

/-- What is derived with first readings preferred is read, as long as there are levels for all tokens. -/
theorem levelled_exact (limit n : Nat) (e : Entry) :
    Exact n (levelled limit n e) (Form.construct e) e.ends := by
  induction n generalizing e with
  | zero =>
      intro s a t less _ _
      omega
  | succ n ih => exact rule_exact ih ⟨levelled_forward limit n .query, levelled_sound_any limit n .query⟩ e

/-- What a construct is read as is derived from its form with first readings preferred. -/
theorem levelled_sound_first (limit n : Nat) (e : Entry) :
    Sound firstReading n (levelled limit n e) (Form.construct e) := by
  refine levelled_sound (fun n _ => ⟨levelled_forward limit n .query,
    fun s m w complete less spells closes fails => ?_⟩) n e
  refine (permits_first_iff complete ⟨w, spells⟩).mpr fun ⟨_, any⟩ => ?_
  -- a query up to the closing parenthesis would have been found first
  obtain ⟨q, query⟩ := any.exists_first
  have run := levelled_exact limit n .query s q m less query (by rw [closes]; rfl)
  obtain ⟨f, u, failed⟩ := fails (query_starts query)
  rw [closed_of_kind run closes] at failed
  cases failed

end SelectSyntax.Parse
