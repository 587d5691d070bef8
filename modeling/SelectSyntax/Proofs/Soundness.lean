import SelectSyntax.Proofs.Soundness.Table

/-!
What parsers accept is derived: whatever a construct under a limit reads, the form of its rule is read there with
the same value.
-/

set_option autoImplicit false
set_option relaxedAutoImplicit false

namespace SelectSyntax.Parse

open Grammar (Allows)
open Token (Kind Keyword)
open SyntaxTree

section
variable {allows : Allows} {n : Nat} {i : Inner}
  (inside : ∀ e, Sound allows n (i e) (Form.construct e))
include inside

variable (guards : Guards allows n i)
include guards

variable (allows) in
omit inside guards in
private theorem setQuantifier_sound {s t : State} {q : SetQuantifier} (complete : s.Complete)
    (run : setQuantifier s = .ok q t) : Reads allows s Grammar.setQuantifier q t := by
  obtain ⟨o, m, taken, last⟩ := bind_eq_ok.mp run
  obtain ⟨rfl, rfl⟩ := pure_eq_ok.mp last
  rcases take?_eq_ok.mp taken with ⟨q, rfl, value, rfl⟩ | ⟨rfl, _, rfl⟩
  · exact Reads.setQuantifier_iff.mpr ⟨complete, Or.inl ⟨value, rfl⟩⟩
  · exact Reads.setQuantifier_iff.mpr ⟨complete, Or.inr ⟨rfl, rfl⟩⟩

private theorem orderItem_sound : Sound allows (n + 1) (orderItem i) Grammar.orderItem := by
  intro s e t complete less run
  obtain ⟨key, m, read, next⟩ := bind_eq_ok.mp run
  obtain ⟨o, u, taken, last⟩ := bind_eq_ok.mp next
  obtain ⟨rfl, rfl⟩ := pure_eq_ok.mp last
  have first := row_sound inside guards s key m complete less read
  refine Reads.seq_iff.mpr ⟨_, _, m, Reads.map_iff.mpr ⟨key, first, rfl⟩, ?_, rfl⟩
  rcases take?_eq_ok.mp taken with ⟨d, rfl, value, rfl⟩ | ⟨rfl, _, rfl⟩
  · exact Reads.direction_iff.mpr ⟨first.complete, Or.inl ⟨value, rfl⟩⟩
  · exact Reads.direction_iff.mpr ⟨first.complete, Or.inr ⟨rfl, rfl⟩⟩

private theorem projection_sound : Sound allows (n + 1) (projection i) Grammar.projection := by
  intro s e t complete less run
  obtain ⟨value, m, read, next⟩ := bind_eq_ok.mp run
  obtain ⟨o, u, named, last⟩ := bind_eq_ok.mp next
  obtain ⟨rfl, rfl⟩ := pure_eq_ok.mp last
  have first := row_sound inside guards s value m complete less read
  have fewer := first.remaining_le
  exact Reads.seq_iff.mpr ⟨_, o, m, Reads.map_iff.mpr ⟨value, first, rfl⟩,
    optionalAlias_sound (n := n + 1) m o t first.complete (by omega) named, rfl⟩

omit guards in
private theorem tables_sound : Sound allows (n + 1) (tables i) Grammar.tables := by
  intro s e t complete less run
  obtain ⟨b, m, taken, next⟩ := bind_eq_ok.mp run
  rcases eat_eq_ok.mp taken with ⟨rfl, word, rfl⟩ | ⟨rfl, _, rfl⟩
  · have fewer := complete.remaining_advance (by rw [word]; rfl)
    exact Reads.or_iff.mpr (Or.inl (Reads.seqRight_iff.mpr ⟨(), _,
      Reads.word_iff.mpr ⟨complete, word, rfl⟩, Sound.separated ⟨rfl, by simp⟩ (inside .table) _ e t
        (s.advance_within.complete complete) (by omega) next⟩))
  · obtain ⟨rfl, rfl⟩ := pure_eq_ok.mp next
    exact Reads.or_iff.mpr (Or.inr (Reads.pure_iff.mpr ⟨complete, rfl, rfl⟩))

private theorem grouping?_sound : SoundItem allows (n + 1) (grouping? i) Grammar.grouping := by
  intro s o t complete less run
  obtain ⟨b, m, taken, next⟩ := bind_eq_ok.mp run
  rcases eat_eq_ok.mp taken with ⟨rfl, word, rfl⟩ | ⟨rfl, _, rfl⟩
  · have ahead := s.advance_within.complete complete
    have fewer := s.advance_within.remaining_le
    have fewer' := s.advance.advance_within.remaining_le
    obtain ⟨_, u, taken, rest⟩ := bind_eq_ok.mp next
    obtain ⟨by_, rfl⟩ := expect_eq_ok.mp taken
    obtain ⟨q, v, read, others⟩ := bind_eq_ok.mp rest
    have first := setQuantifier_sound allows (s.advance.advance_within.complete ahead) read
    have fewer'' := first.remaining_le
    obtain ⟨items, w, read, last⟩ := bind_eq_ok.mp others
    obtain ⟨rfl, rfl⟩ := pure_eq_ok.mp last
    have second := (row_sound inside guards).separated ⟨rfl, by simp⟩ v items t first.complete
      (by omega) read
    refine Or.inl ⟨_, rfl, Reads.seq_iff.mpr ⟨_, items, v, Reads.map_iff.mpr ⟨q,
      Reads.seqRight_iff.mpr ⟨(), _, ?_, first⟩, rfl⟩, second, rfl⟩⟩
    exact Reads.seqRight_iff.mpr ⟨(), _, Reads.word_iff.mpr ⟨complete, word, rfl⟩,
      Reads.word_iff.mpr ⟨ahead, by_, rfl⟩⟩
  · obtain ⟨rfl, rfl⟩ := pure_eq_ok.mp next
    exact Or.inr ⟨rfl, rfl⟩

private theorem selectBlock_sound : Sound allows (n + 1) (selectBlock i) Grammar.selectBlock := by
  intro s e t complete less run
  have ahead := s.advance_within.complete complete
  have fewer := s.advance_within.remaining_le
  obtain ⟨_, m, taken, next⟩ := bind_eq_ok.mp run
  obtain ⟨word, rfl⟩ := expect_eq_ok.mp taken
  obtain ⟨q, u, read, rest⟩ := bind_eq_ok.mp next
  have first := setQuantifier_sound allows ahead read
  have fewer₁ := first.remaining_le
  obtain ⟨projections, v, read, rest⟩ := bind_eq_ok.mp rest
  have second := (projection_sound inside guards).separated ⟨rfl, by simp⟩ u projections v
    first.complete (by omega) read
  have fewer₂ := second.remaining_le
  obtain ⟨entries, w, read, rest⟩ := bind_eq_ok.mp rest
  have third := tables_sound inside v entries w second.complete (by omega) read
  have fewer₃ := third.remaining_le
  obtain ⟨filter, x, read, rest⟩ := bind_eq_ok.mp rest
  have fourth := (clause_sound inside .WHERE).optional w filter x third.complete (by omega) read
  have fewer₄ := fourth.remaining_le
  obtain ⟨grouping, y, read, rest⟩ := bind_eq_ok.mp rest
  have fifth := (grouping?_sound inside guards).optional x grouping y fourth.complete (by omega) read
  have fewer₅ := fifth.remaining_le
  obtain ⟨having, z, read, last⟩ := bind_eq_ok.mp rest
  obtain ⟨rfl, rfl⟩ := pure_eq_ok.mp last
  have sixth := (clause_sound inside .HAVING).optional y having t fifth.complete (by omega) read
  have start : Reads allows s (Form.word .SELECT *> Grammar.setQuantifier) q u :=
    Reads.seqRight_iff.mpr ⟨(), _, Reads.word_iff.mpr ⟨complete, word, rfl⟩, first⟩
  exact Reads.seq_iff.mpr ⟨_, having, y, Reads.seq_iff.mpr ⟨_, grouping, x, Reads.seq_iff.mpr
    ⟨_, filter, w, Reads.seq_iff.mpr ⟨_, entries, v, Reads.seq_iff.mpr ⟨_, projections, u,
    Reads.map_iff.mpr ⟨q, start, rfl⟩, second, rfl⟩, third, rfl⟩, fourth, rfl⟩, fifth, rfl⟩, sixth,
    rfl⟩

private theorem bodyPrimary_sound : Sound allows (n + 1) (bodyPrimary i) Grammar.bodyPrimary := by
  intro s e t complete less run
  obtain ⟨k, m, taken, next⟩ := bind_eq_ok.mp run
  obtain ⟨found, rfl⟩ := kind_eq_ok.mp taken
  split at next
  · obtain ⟨block, read, rfl⟩ := map_eq_ok.mp next
    exact Reads.or_iff.mpr (Or.inl (Reads.map_iff.mpr ⟨block,
      selectBlock_sound inside guards m block t complete less read, rfl⟩))
  · obtain ⟨kind, closedRun⟩ := enclosed_eq_ok.mp next
    obtain ⟨u, read, closes, rfl⟩ := closed_eq_ok.mp closedRun
    exact Reads.or_iff.mpr (Or.inr (Reads.parens_iff.mpr ⟨complete, kind, u,
      after_token inside complete less (by rw [kind]; rfl) read, closes, rfl⟩))
  · cases next

omit inside guards in
private theorem setTail?_sound {operator : Kind → Option SetOp} {p : Parser Body} {F : Form Body}
    (single : ∀ k op, operator k = some op → Reads.Single k) (h : Sound allows n p F) :
    SoundItem allows n (setTail? operator p)
      ((fun op quantifier right => (op, quantifier, right)) <$> Form.oneOf operator <*>
        Grammar.setQuantifier <*> F) := by
  intro s o t complete less run
  obtain ⟨op, m, taken, next⟩ := bind_eq_ok.mp run
  rcases take?_eq_ok.mp taken with ⟨op, rfl, value, rfl⟩ | ⟨rfl, _, rfl⟩
  · obtain ⟨q, u, read, rest⟩ := bind_eq_ok.mp next
    have ahead := s.advance_within.complete complete
    have fewer := s.advance_within.remaining_le
    have second := setQuantifier_sound allows ahead read
    have fewer' := second.remaining_le
    obtain ⟨right, v, read, last⟩ := bind_eq_ok.mp rest
    obtain ⟨rfl, rfl⟩ := pure_eq_ok.mp last
    refine Or.inl ⟨_, rfl, Reads.seq_iff.mpr ⟨_, right, u, Reads.seq_iff.mpr ⟨_, q, s.advance,
      Reads.map_iff.mpr ⟨op, (Reads.oneOf_iff single).mpr ⟨complete, value, rfl⟩, rfl⟩, second,
      rfl⟩, ?_, rfl⟩⟩
    exact h u right t second.complete (by omega) read
  · obtain ⟨rfl, rfl⟩ := pure_eq_ok.mp next
    exact Or.inr ⟨rfl, rfl⟩

omit inside guards in
private theorem setChain_sound {operator : Kind → Option SetOp} {p : Parser Body} {F : Form Body}
    (single : ∀ k op, operator k = some op → Reads.Single k) (h : Sound allows n p F) :
    Sound allows n (setChain operator p) (Grammar.setChain operator F) :=
  .withItems _ h (setTail?_sound single h)

theorem body_sound : Sound allows (n + 1) (body i) Grammar.body := by
  rw [Grammar.body_eq, Grammar.term_eq]
  exact setChain_sound unionOrExcept?_operators.single
    (setChain_sound intersect?_operators.single (bodyPrimary_sound inside guards))

omit guards in
private theorem namedQuery_sound : Sound allows (n + 1) (namedQuery i) Grammar.namedQuery := by
  intro s e t complete less run
  obtain ⟨name, m, read, next⟩ := bind_eq_ok.mp run
  have first : Reads allows s Grammar.name name m := identifier_sound (n := n + 1) _ _ _ complete less read
  have fewer := first.remaining_le
  obtain ⟨columns, u, read, rest⟩ := bind_eq_ok.mp next
  have second : Reads allows m Grammar.columns columns u :=
    optionalColumns_sound (n := n + 1) _ _ _ first.complete (by omega) read
  have fewer' := second.remaining_le
  obtain ⟨b, v, taken, others⟩ := bind_eq_ok.mp rest
  rcases eat_eq_ok.mp taken with ⟨rfl, word, rfl⟩ | ⟨rfl, _, rfl⟩
  · obtain ⟨q, w, read, last⟩ := bind_eq_ok.mp others
    obtain ⟨rfl, rfl⟩ := pure_eq_ok.mp last
    have less' := second.complete.remaining_advance (by rw [word]; rfl)
    have third := Sound.enclosed (inside .query) _ q t (u.advance_within.complete second.complete)
      (by omega) read
    exact Reads.seq_iff.mpr ⟨_, q, u, Reads.seq_iff.mpr ⟨_, columns, m, Reads.map_iff.mpr
      ⟨name, first, rfl⟩, second, rfl⟩, Reads.seqRight_iff.mpr ⟨(), _,
      Reads.word_iff.mpr ⟨second.complete, word, rfl⟩, third⟩, rfl⟩
  · cases columns <;> cases others

omit guards in
private theorem withClause?_sound : SoundItem allows (n + 1) (withClause? i) Grammar.withClause := by
  intro s o t complete less run
  obtain ⟨b, m, taken, next⟩ := bind_eq_ok.mp run
  rcases eat_eq_ok.mp taken with ⟨rfl, word, rfl⟩ | ⟨rfl, _, rfl⟩
  · have ahead := s.advance_within.complete complete
    have fewer := s.advance_within.remaining_le
    obtain ⟨recursive, u, taken, rest⟩ := bind_eq_ok.mp next
    have flag : Reads allows s.advance (Form.flag .RECURSIVE) recursive u := by
      rcases eat_eq_ok.mp taken with ⟨rfl, recursive, rfl⟩ | ⟨rfl, _, rfl⟩
      · exact flag_of_kind ahead recursive
      · exact Reads.flag_iff.mpr ⟨ahead, Or.inr ⟨rfl, rfl⟩⟩
    have fewer' := flag.remaining_le
    obtain ⟨queries, v, read, last⟩ := bind_eq_ok.mp rest
    obtain ⟨rfl, rfl⟩ := pure_eq_ok.mp last
    have others := (namedQuery_sound inside).separated ⟨rfl, by simp⟩ u queries t flag.complete
      (by omega) read
    refine Or.inl ⟨_, rfl, Reads.seq_iff.mpr ⟨_, queries, u, Reads.map_iff.mpr ⟨recursive, ?_, rfl⟩,
      others, rfl⟩⟩
    exact Reads.seqRight_iff.mpr ⟨(), _, Reads.word_iff.mpr ⟨complete, word, rfl⟩, flag⟩
  · obtain ⟨rfl, rfl⟩ := pure_eq_ok.mp next
    exact Or.inr ⟨rfl, rfl⟩

private theorem orderBy_sound : Sound allows (n + 1) (orderBy i) Grammar.orderBy := by
  intro s e t complete less run
  obtain ⟨b, m, taken, next⟩ := bind_eq_ok.mp run
  rcases eat_eq_ok.mp taken with ⟨rfl, word, rfl⟩ | ⟨rfl, _, rfl⟩
  · have ahead := s.advance_within.complete complete
    have fewer := s.advance_within.remaining_le
    have fewer' := s.advance.advance_within.remaining_le
    obtain ⟨_, u, taken, rest⟩ := bind_eq_ok.mp next
    obtain ⟨by_, rfl⟩ := expect_eq_ok.mp taken
    have items := (orderItem_sound inside guards).separated ⟨rfl, by simp⟩ _ e t
      (s.advance.advance_within.complete ahead) (by omega) rest
    refine Reads.or_iff.mpr (Or.inl (Reads.seqRight_iff.mpr ⟨(), _, ?_, items⟩))
    exact Reads.seqRight_iff.mpr ⟨(), _, Reads.word_iff.mpr ⟨complete, word, rfl⟩,
      Reads.word_iff.mpr ⟨ahead, by_, rfl⟩⟩
  · obtain ⟨rfl, rfl⟩ := pure_eq_ok.mp next
    exact Reads.or_iff.mpr (Or.inr (Reads.pure_iff.mpr ⟨complete, rfl, rfl⟩))

theorem query_sound : Sound allows (n + 1) (query i) Grammar.query := by
  intro s e t complete less run
  obtain ⟨withClause, m, read, next⟩ := bind_eq_ok.mp run
  have first := (withClause?_sound inside).optional s withClause m complete less read
  have fewer := first.remaining_le
  obtain ⟨b, u, read, rest⟩ := bind_eq_ok.mp next
  have second := body_sound inside guards m b u first.complete (by omega) read
  have fewer' := second.remaining_le
  obtain ⟨items, v, read, last⟩ := bind_eq_ok.mp rest
  obtain ⟨rfl, rfl⟩ := pure_eq_ok.mp last
  have third := orderBy_sound inside guards u items t second.complete (by omega) read
  exact Reads.seq_iff.mpr ⟨_, items, u, Reads.seq_iff.mpr ⟨_, b, m, Reads.map_iff.mpr
    ⟨withClause, first, rfl⟩, second, rfl⟩, third, rfl⟩

/-- What the rule of a construct reads is derived from its form. -/
theorem rule_sound (e : Entry) : Sound allows (n + 1) (rule i e) (Form.construct e) := by
  intro s a t complete less run
  refine Reads.construct_iff.mpr ?_
  cases e with
  | query => exact query_sound inside guards s a t complete less run
  | body => exact body_sound inside guards s a t complete less run
  | condition => exact condition_sound inside guards s a t complete less run
  | negated => exact negation_sound inside guards s a t complete less run
  | signed =>
      have operand : Sound allows n (row i) Form.row := fun s a t complete less run =>
        row_sound inside guards s a t complete (Nat.lt_succ_of_lt less) run
      exact primary_sound inside guards (Nat.le_refl n) operand s a t complete less run
  | table => exact table_sound inside guards s a t complete less run

end

/-- The parser of each construct reads no more than the grammar derives, with the parentheses on which
the level further in agrees with the grammar. -/
theorem levelled_sound {allows : Allows} {limit : Nat}
    (guards : ∀ n, (∀ e, Sound allows n (levelled limit n e) (Form.construct e)) →
      Guards allows n (levelled limit n)) (n : Nat) (e : Entry) :
    Sound allows n (levelled limit n e) (Form.construct e) := by
  induction n generalizing e with
  | zero =>
      intro s a t _ less _
      omega
  | succ n ih => exact rule_sound ih (guards n ih) e

end SelectSyntax.Parse
