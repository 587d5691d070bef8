import SelectSyntax.Proofs.Soundness.Row

/-!
What the parsers of search conditions accept is derived, as long as the constructs inside are.
-/

set_option autoImplicit false
set_option relaxedAutoImplicit false

namespace SelectSyntax.Parse

open Grammar (Allows)
open Token (Kind Keyword)
open SyntaxTree

section
variable {allows : Allows} {n : Nat} {i : Inner}
  (inside : ∀ e, Sound allows n (i e) (Form.construct e))
include inside

variable (guards : Guards allows n i)
include guards

private theorem row_after_word_sound {k : Keyword} {s : State} {e : Expr} {t : State} (complete : s.Complete)
    (less : s.remaining < n + 1) (word : s.kind = .keyword k) (run : row i s.advance = .ok e t) :
    Reads allows s (Form.word k *> Form.row) e t := by
  have fewer := s.advance_within.remaining_le
  exact Reads.seqRight_iff.mpr ⟨(), _, Reads.word_iff.mpr ⟨complete, word, rfl⟩,
    row_sound inside guards _ e t (s.advance_within.complete complete) (by omega) run⟩

private theorem comparisonEnd_sound {left : Expr} {op : BinaryOp} {s t : State} {e : Expr}
    (complete : s.Complete) (less : s.remaining < n + 1) (value : BinaryOp.comparison? s.kind = some op)
    (run : comparisonEnd i left op s.advance = .ok e t) :
    ∃ f, Reads allows s Grammar.comparisonEnd f t ∧ e = f left := by
  have ahead := s.advance_within.complete complete
  have fewer := s.advance_within.remaining_le
  simp only [Grammar.comparisonEnd, Reads.or_iff, Reads.seq_iff, Reads.map_iff, Reads.comparison_iff,
    Reads.quantifier_iff]
  obtain ⟨o, m, taken, next⟩ := bind_eq_ok.mp run
  rcases take?_eq_ok.mp taken with ⟨q, rfl, quantifier, rfl⟩ | ⟨rfl, _, rfl⟩
  · obtain ⟨query, read, rfl⟩ := map_eq_ok.mp next
    have fewer' := s.advance.advance_within.remaining_le
    have live : s.kind.isTerminal = false := by
      have plain := (comparison?_operators.single _ _ value).1
      simp only [Symbol.isPlain, Bool.and_eq_true, Bool.not_eq_true'] at plain
      exact plain.2
    have fewer'' := complete.remaining_advance live
    have second := Sound.enclosed (inside .query) _ _ t (s.advance.advance_within.complete ahead)
      (by omega) read
    exact ⟨_, Or.inr ⟨_, query, _, ⟨_, q, _, ⟨op, ⟨complete, value, rfl⟩, rfl⟩,
      ⟨ahead, quantifier, rfl⟩, rfl⟩, second, rfl⟩, rfl⟩
  · obtain ⟨right, read, rfl⟩ := map_eq_ok.mp next
    have second := row_sound inside guards _ right t ahead (by omega) read
    exact ⟨_, Or.inl ⟨_, right, _, ⟨op, ⟨complete, value, rfl⟩, rfl⟩, second, rfl⟩, rfl⟩

private theorem betweenEnd_sound {negated : Bool} {operand e : Expr} {s m t : State}
    (flag : Reads allows s (Form.flag .NOT) negated m) (less : m.remaining < n + 1)
    (run : betweenEnd i negated operand m = .ok e t) :
    ∃ f, Reads allows s Grammar.betweenEnd f t ∧ e = f operand := by
  obtain ⟨_, u, taken, next⟩ := bind_eq_ok.mp run
  obtain ⟨word, rfl⟩ := expect_eq_ok.mp taken
  obtain ⟨low, v, read, rest⟩ := bind_eq_ok.mp next
  have first := row_after_word_sound inside guards flag.complete less word read
  have fewer := first.remaining_le
  obtain ⟨_, w, taken, others⟩ := bind_eq_ok.mp rest
  obtain ⟨and, rfl⟩ := expect_eq_ok.mp taken
  obtain ⟨high, x, read, last⟩ := bind_eq_ok.mp others
  obtain ⟨rfl, rfl⟩ := pure_eq_ok.mp last
  have second := row_after_word_sound inside guards first.complete (by omega) and read
  exact ⟨_, Reads.seq_iff.mpr ⟨_, high, v, Reads.seq_iff.mpr ⟨_, low, m,
    Reads.map_iff.mpr ⟨negated, flag, rfl⟩, first, rfl⟩, second, rfl⟩, rfl⟩

private theorem inEnd_sound {negated : Bool} {operand e : Expr} {s m t : State}
    (flag : Reads allows s (Form.flag .NOT) negated m) (less : m.remaining < n + 1)
    (run : inEnd i negated operand m = .ok e t) :
    ∃ f, Reads allows s Grammar.inEnd f t ∧ e = f operand := by
  obtain ⟨_, u, taken, next⟩ := bind_eq_ok.mp run
  obtain ⟨word, rfl⟩ := expect_eq_ok.mp taken
  obtain ⟨x, v, read, last⟩ := bind_eq_ok.mp next
  have fewer := m.advance_within.remaining_le
  have first := parenthesized_prefer inside id guards (conditions_sound inside)
    (m.advance_within.complete flag.complete) (by omega) read
  refine ⟨_, Reads.seq_iff.mpr ⟨_, x, m, Reads.map_iff.mpr ⟨negated, flag, rfl⟩,
    Reads.seqRight_iff.mpr ⟨(), _, Reads.word_iff.mpr ⟨flag.complete, word, rfl⟩, ?_⟩, rfl⟩, ?_⟩
  · cases x <;> (obtain ⟨rfl, rfl⟩ := pure_eq_ok.mp last; exact first)
  · cases x <;> (obtain ⟨rfl, rfl⟩ := pure_eq_ok.mp last; rfl)

private theorem likeEnd_sound {negated : Bool} {operand e : Expr} {s m t : State}
    (flag : Reads allows s (Form.flag .NOT) negated m) (less : m.remaining < n + 1)
    (run : likeEnd i negated operand m = .ok e t) :
    ∃ f, Reads allows s Grammar.likeEnd f t ∧ e = f operand := by
  obtain ⟨_, u, taken, next⟩ := bind_eq_ok.mp run
  obtain ⟨word, rfl⟩ := expect_eq_ok.mp taken
  obtain ⟨pattern, v, read, rest⟩ := bind_eq_ok.mp next
  have first := row_after_word_sound inside guards flag.complete less word read
  have fewer := first.remaining_le
  obtain ⟨escape, w, read, last⟩ := bind_eq_ok.mp rest
  obtain ⟨rfl, rfl⟩ := pure_eq_ok.mp last
  have second := ((row_sound inside guards).after? ⟨rfl, by simp⟩).optional v escape t
    first.complete (by omega) read
  exact ⟨_, Reads.seq_iff.mpr ⟨_, escape, v, Reads.seq_iff.mpr ⟨_, pattern, m,
    Reads.map_iff.mpr ⟨negated, flag, rfl⟩, first, rfl⟩, second, rfl⟩, rfl⟩

private theorem predicateEnd_sound {operand e : Expr} {s t : State} (complete : s.Complete)
    (less : s.remaining < n + 1) (run : predicateEnd i operand s = .ok e t) :
    ∃ f, (Reads allows s Grammar.nullEnd f t ∨ Reads allows s Grammar.betweenEnd f t ∨
      Reads allows s Grammar.inEnd f t ∨ Reads allows s Grammar.likeEnd f t ∨
      Reads allows s (pure id : Form (Expr → Expr)) f t) ∧ e = f operand := by
  have plain : Reads allows s (Form.flag .NOT) false s :=
    Reads.flag_iff.mpr ⟨complete, Or.inr ⟨rfl, rfl⟩⟩
  have ahead := s.advance_within.complete complete
  have fewer := s.advance_within.remaining_le
  obtain ⟨o, m, looked, next⟩ := bind_eq_ok.mp run
  rcases isNull?_eq_ok looked with ⟨negated, u, rfl, is, not, null, rfl⟩ | ⟨rfl, rfl⟩
  · obtain ⟨rfl, rfl⟩ := pure_eq_ok.mp next
    have flag : Reads allows s.advance (Form.flag .NOT) negated u := by
      rcases not with ⟨rfl, not, rfl⟩ | ⟨rfl, rfl⟩
      · exact flag_of_kind ahead not
      · exact Reads.flag_iff.mpr ⟨ahead, Or.inr ⟨rfl, rfl⟩⟩
    refine ⟨_, Or.inl (Reads.seqLeft_iff.mpr ⟨(), u, Reads.map_iff.mpr ⟨negated, ?_, rfl⟩,
      Reads.word_iff.mpr ⟨flag.complete, null, rfl⟩⟩), rfl⟩
    exact Reads.seqRight_iff.mpr ⟨(), _, Reads.word_iff.mpr ⟨complete, is, rfl⟩, flag⟩
  · obtain ⟨k, u, taken, rest⟩ := bind_eq_ok.mp next
    obtain ⟨found, rfl⟩ := kind_eq_ok.mp taken
    split at rest
    · obtain ⟨_, v, moved, others⟩ := bind_eq_ok.mp rest
      obtain rfl := advance_eq_ok.mp moved
      have flag : Reads allows _ (Form.flag .NOT) true _ := flag_of_kind complete found.symm
      obtain ⟨k, w, taken, last⟩ := bind_eq_ok.mp others
      obtain ⟨_, rfl⟩ := kind_eq_ok.mp taken
      split at last
      · obtain ⟨f, reads, rfl⟩ := betweenEnd_sound inside guards flag (by omega) last
        exact ⟨f, Or.inr (Or.inl reads), rfl⟩
      · obtain ⟨f, reads, rfl⟩ := inEnd_sound inside guards flag (by omega) last
        exact ⟨f, Or.inr (Or.inr (Or.inl reads)), rfl⟩
      · obtain ⟨f, reads, rfl⟩ := likeEnd_sound inside guards flag (by omega) last
        exact ⟨f, Or.inr (Or.inr (Or.inr (Or.inl reads))), rfl⟩
      · cases last
    · obtain ⟨f, reads, rfl⟩ := betweenEnd_sound inside guards plain less rest
      exact ⟨f, Or.inr (Or.inl reads), rfl⟩
    · obtain ⟨f, reads, rfl⟩ := inEnd_sound inside guards plain less rest
      exact ⟨f, Or.inr (Or.inr (Or.inl reads)), rfl⟩
    · obtain ⟨f, reads, rfl⟩ := likeEnd_sound inside guards plain less rest
      exact ⟨f, Or.inr (Or.inr (Or.inr (Or.inl reads))), rfl⟩
    · obtain ⟨rfl, rfl⟩ := pure_eq_ok.mp rest
      exact ⟨id, Or.inr (Or.inr (Or.inr (Or.inr (Reads.pure_iff.mpr ⟨complete, rfl, rfl⟩)))), rfl⟩

private theorem predicate_sound : Sound allows (n + 1) (predicate i) Grammar.predicate := by
  intro s e t complete less run
  obtain ⟨b, m, taken, next⟩ := bind_eq_ok.mp run
  rcases eat_eq_ok.mp taken with ⟨rfl, word, rfl⟩ | ⟨rfl, _, rfl⟩
  · obtain ⟨q, read, rfl⟩ := map_eq_ok.mp next
    have fewer := complete.remaining_advance (by rw [word]; rfl)
    refine Reads.or_iff.mpr (Or.inl (Reads.map_iff.mpr ⟨q, Reads.seqRight_iff.mpr ⟨(), _,
      Reads.word_iff.mpr ⟨complete, word, rfl⟩, ?_⟩, rfl⟩))
    exact Sound.enclosed (inside .query) _ q t (s.advance_within.complete complete) (by omega) read
  · obtain ⟨k, u, looked, rest⟩ := bind_eq_ok.mp next
    obtain ⟨rfl, rfl⟩ := kind_eq_ok.mp looked
    split at rest
    · obtain ⟨left, v, read, others⟩ := bind_eq_ok.mp rest
      have first := row_sound inside guards u left v complete less read
      have fewer := first.remaining_le
      obtain ⟨o, w, taken, last⟩ := bind_eq_ok.mp others
      rcases take?_eq_ok.mp taken with ⟨op, rfl, value, rfl⟩ | ⟨rfl, _, rfl⟩
      · obtain ⟨f, reads, rfl⟩ := comparisonEnd_sound inside guards first.complete (by omega) value last
        exact Reads.or_iff.mpr (Or.inr (Reads.seq_iff.mpr ⟨_, f, v, Reads.map_iff.mpr
          ⟨left, first, rfl⟩, Reads.or_iff.mpr (Or.inl reads), rfl⟩))
      · obtain ⟨f, reads, rfl⟩ := predicateEnd_sound inside guards first.complete (by omega) last
        refine Reads.or_iff.mpr (Or.inr (Reads.seq_iff.mpr ⟨_, f, w, Reads.map_iff.mpr
          ⟨left, first, rfl⟩, ?_, rfl⟩))
        simp only [Reads.or_iff]
        exact Or.inr reads
    · cases rest

private theorem truthTest_sound : Sound allows (n + 1) (truthTest i) Grammar.truthTest := by
  intro s e t complete less run
  obtain ⟨operand, m, read, next⟩ := bind_eq_ok.mp run
  have first := predicate_sound inside guards s operand m complete less read
  refine Reads.seq_iff.mpr ?_
  obtain ⟨b, u, taken, rest⟩ := bind_eq_ok.mp next
  rcases eat_eq_ok.mp taken with ⟨rfl, word, rfl⟩ | ⟨rfl, _, rfl⟩
  · have ahead := m.advance_within.complete first.complete
    obtain ⟨negated, v, taken, others⟩ := bind_eq_ok.mp rest
    have flag : Reads allows m.advance (Form.flag .NOT) negated v := by
      rcases eat_eq_ok.mp taken with ⟨rfl, not, rfl⟩ | ⟨rfl, _, rfl⟩
      · exact flag_of_kind ahead not
      · exact Reads.flag_iff.mpr ⟨ahead, Or.inr ⟨rfl, rfl⟩⟩
    obtain ⟨o, w, taken, last⟩ := bind_eq_ok.mp others
    rcases take?_eq_ok.mp taken with ⟨value, rfl, read, rfl⟩ | ⟨rfl, _, rfl⟩
    · obtain ⟨rfl, rfl⟩ := pure_eq_ok.mp last
      refine ⟨_, _, m, Reads.map_iff.mpr ⟨operand, first, rfl⟩, Reads.or_iff.mpr (Or.inl
        (Reads.seq_iff.mpr ⟨_, value, v, Reads.map_iff.mpr ⟨negated, ?_, rfl⟩, ?_, rfl⟩)), rfl⟩
      · exact Reads.seqRight_iff.mpr ⟨(), _, Reads.word_iff.mpr ⟨first.complete, word, rfl⟩, flag⟩
      · exact Reads.truthValue_iff.mpr ⟨flag.complete, read, rfl⟩
    · cases last
  · obtain ⟨rfl, rfl⟩ := pure_eq_ok.mp rest
    exact ⟨_, id, t, Reads.map_iff.mpr ⟨e, first, rfl⟩, Reads.or_iff.mpr (Or.inr
      (Reads.pure_iff.mpr ⟨first.complete, rfl, rfl⟩)), rfl⟩

theorem negation_sound : Sound allows (n + 1) (negation i) Grammar.negation := by
  intro s e t complete less run
  obtain ⟨b, m, taken, next⟩ := bind_eq_ok.mp run
  rcases eat_eq_ok.mp taken with ⟨rfl, word, rfl⟩ | ⟨rfl, _, rfl⟩
  · obtain ⟨a, read, rfl⟩ := map_eq_ok.mp next
    have reads := after_token inside complete less (by rw [word]; rfl) read
    exact Reads.or_iff.mpr (Or.inl (Reads.map_iff.mpr ⟨a, Reads.seqRight_iff.mpr ⟨(), _,
      Reads.word_iff.mpr ⟨complete, word, rfl⟩, reads⟩, rfl⟩))
  · exact Reads.or_iff.mpr (Or.inr (truthTest_sound inside guards m e t complete less next))

theorem condition_sound : Sound allows (n + 1) (condition i) Grammar.condition := by
  rw [Grammar.condition_eq, Grammar.conjunction_eq]
  exact .chain or?_operators.single (.chain and?_operators.single (negation_sound inside guards))

end

end SelectSyntax.Parse
