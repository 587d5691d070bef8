import SelectSyntax.Proofs.Completeness.Row

/-!
The parsers of search conditions read all that is derived, as long as the constructs inside do.
-/

set_option autoImplicit false
set_option relaxedAutoImplicit false

namespace SelectSyntax.Parse

open Grammar (anyReading firstReading)
open Token (Kind Keyword)
open SyntaxTree

section
variable {n : Nat} {i : Inner}
  (exact : ∀ e, Exact n (i e) (Form.construct e) e.ends)
include exact

variable (sound : Forward (i .query) ∧ Sound anyReading n (i .query) (Form.construct .query))
include sound

private theorem row_after_word_exact {k : Keyword} {s t : State} {e : Expr} (less : s.remaining < n + 1)
    (reads : Reads firstReading s (Form.word k *> Form.row) e t) (halts : endsRow t.kind = true) :
    s.kind = .keyword k ∧ row i s.advance = .ok e t := by
  obtain ⟨kind, _, operand⟩ := Reads.mark_strict ⟨rfl, by simp⟩ reads
  have fewer := s.advance_within.remaining_le
  exact ⟨kind, row_exact exact sound _ e t (by omega) operand halts⟩

private theorem comparisonEnd_exact {s t : State} {f : Expr → Expr} {left : Expr}
    (less : s.remaining < n + 1) (reads : Reads firstReading s Grammar.comparisonEnd f t)
    (halts : endsRow t.kind = true) :
    ∃ op, BinaryOp.comparison? s.kind = some op ∧
      comparisonEnd i left op s.advance = .ok (f left) t := by
  have fewer := s.advance_within.remaining_le
  simp only [Grammar.comparisonEnd, Reads.or_iff, Reads.seq_iff, Reads.map_iff, Reads.comparison_iff,
    Reads.quantifier_iff] at reads
  rcases reads with ⟨_, right, m, ⟨op, ⟨_, value, rfl⟩, rfl⟩, second, rfl⟩ |
    ⟨_, query, u, ⟨_, q, m, ⟨op, ⟨complete, value, rfl⟩, rfl⟩, ⟨_, quantifier, rfl⟩, rfl⟩, second, rfl⟩
  · have starts := row_starts second
    have none : Quantifier.ofKind? s.advance.kind = none := by
      cases found : Quantifier.ofKind? s.advance.kind with
      | none => rfl
      | some q =>
          generalize s.advance.kind = k at starts found
          unfold Quantifier.ofKind? at found
          split at found <;> simp [rowStart] at starts found
    exact ⟨op, value, bind_eq_ok.mpr ⟨_, _, take?_eq_ok.mpr (Or.inr ⟨rfl, none, rfl⟩),
      map_of_ok (row_exact exact sound _ right t (by omega) second halts)⟩⟩
  · have plain := (comparison?_operators.single _ _ value).1
    simp only [Symbol.isPlain, Bool.and_eq_true, Bool.not_eq_true'] at plain
    have fewer' := complete.remaining_advance plain.2
    have fewer'' := s.advance.advance_within.remaining_le
    have fewer₃ := s.advance.advance.advance_within.remaining_le
    exact ⟨op, value, bind_eq_ok.mpr ⟨some q, _, take?_eq_ok.mpr (Or.inl ⟨q, rfl, quantifier, rfl⟩),
      map_of_ok ((exact .query).enclosed rfl (by omega) second)⟩⟩

private theorem betweenEnd_exact {s t : State} {f : Expr → Expr} {operand : Expr}
    (less : s.remaining < n + 1) (reads : Reads firstReading s Grammar.betweenEnd f t)
    (halts : endsRow t.kind = true) :
    ∃ negated m, Reads firstReading s (Form.flag .NOT) negated m ∧ m.kind = .keyword .BETWEEN ∧
      betweenEnd i negated operand m = .ok (f operand) t := by
  obtain ⟨_, high, u, start, last, rfl⟩ := Reads.seq_iff.mp reads
  obtain ⟨_, low, m, head, first, rfl⟩ := Reads.seq_iff.mp start
  obtain ⟨negated, flag, rfl⟩ := Reads.map_iff.mp head
  have fewer := flag.remaining_le
  have fewer' := first.remaining_le
  obtain ⟨and, second⟩ := row_after_word_exact exact sound (by omega) last halts
  obtain ⟨kind, run⟩ := row_after_word_exact exact sound (by omega) first (by rw [and]; rfl)
  exact ⟨negated, m, flag, kind, bind_eq_ok.mpr ⟨(), _, expect_of_kind kind, bind_eq_ok.mpr
    ⟨low, u, run, bind_eq_ok.mpr ⟨(), _, expect_of_kind and, bind_eq_ok.mpr
    ⟨high, t, second, rfl⟩⟩⟩⟩⟩

private theorem inEnd_exact {s t : State} {f : Expr → Expr} {operand : Expr}
    (less : s.remaining < n + 1) (reads : Reads firstReading s Grammar.inEnd f t) :
    ∃ negated m, Reads firstReading s (Form.flag .NOT) negated m ∧ m.kind = .keyword .IN ∧
      inEnd i negated operand m = .ok (f operand) t := by
  obtain ⟨_, x, m, head, last, rfl⟩ := Reads.seq_iff.mp reads
  obtain ⟨negated, flag, rfl⟩ := Reads.map_iff.mp head
  obtain ⟨kind, _, inside⟩ := Reads.mark_strict ⟨rfl, by simp⟩ last
  have fewer := flag.remaining_le
  have fewer' := m.advance_within.remaining_le
  obtain ⟨x, run, rfl⟩ := parenthesized_exact exact sound (conditions_exact exact) rfl (by omega) inside
  refine ⟨negated, m, flag, kind, bind_eq_ok.mpr ⟨(), _, expect_of_kind kind, bind_eq_ok.mpr
    ⟨x, t, run, ?_⟩⟩⟩
  cases x <;> rfl

private theorem likeEnd_exact {s t : State} {f : Expr → Expr} {operand : Expr}
    (less : s.remaining < n + 1) (reads : Reads firstReading s Grammar.likeEnd f t)
    (halts : (endsRow t.kind && t.kind != .keyword .ESCAPE) = true) :
    ∃ negated m, Reads firstReading s (Form.flag .NOT) negated m ∧ m.kind = .keyword .LIKE ∧
      likeEnd i negated operand m = .ok (f operand) t := by
  obtain ⟨_, escape, u, start, last, rfl⟩ := Reads.seq_iff.mp reads
  obtain ⟨_, pattern, m, head, first, rfl⟩ := Reads.seq_iff.mp start
  obtain ⟨negated, flag, rfl⟩ := Reads.map_iff.mp head
  have fewer := flag.remaining_le
  have fewer' := first.remaining_le
  have item := (row_exact exact sound).after? (k := .keyword .ESCAPE) ⟨rfl, by simp⟩ rfl
  have second := item.optional u escape t (by omega) last halts
  have ends : endsRow u.kind = true := by
    rcases Reads.optional_iff.mp last with ⟨_, _, present⟩ | ⟨_, _, rfl⟩
    · rw [(Reads.mark_strict ⟨rfl, by simp⟩ present).1]
      rfl
    · simp only [Bool.and_eq_true] at halts
      exact halts.1
  obtain ⟨kind, run⟩ := row_after_word_exact exact sound (by omega) first ends
  exact ⟨negated, m, flag, kind, bind_eq_ok.mpr ⟨(), _, expect_of_kind kind, bind_eq_ok.mpr
    ⟨pattern, u, run, bind_eq_ok.mpr ⟨escape, t, second, rfl⟩⟩⟩⟩

omit exact sound in
private theorem isNull?_exact {s t : State} {f : Expr → Expr} (operand : Expr)
    (reads : Reads firstReading s Grammar.nullEnd f t) :
    ∃ negated, isNull? s = .ok (some negated) t ∧ f operand = .is .null negated operand ∧
      s.kind = .keyword .IS := by
  obtain ⟨_, m, head, last⟩ := Reads.seqLeft_iff.mp reads
  obtain ⟨negated, words, rfl⟩ := Reads.map_iff.mp head
  obtain ⟨is, _, flag⟩ := Reads.mark_strict ⟨rfl, by simp⟩ words
  obtain ⟨_, null, rfl⟩ := Reads.word_iff.mp last
  refine ⟨negated, ?_, rfl, is⟩
  rw [isNull?_run, if_pos is]
  rcases (Reads.flag_iff.mp flag).2 with ⟨rfl, not, rfl⟩ | ⟨rfl, rfl⟩
  · simp [not, null]
  · simp [null]

omit exact sound in
private theorem isNull?_none {s : State} (other : s.kind = .keyword .IS → ∀ m,
    (m = s.advance ∨ s.advance.kind = .keyword .NOT ∧ m = s.advance.advance) →
      m.kind ≠ .keyword .NULL) : isNull? s = .ok none s := by
  rw [isNull?_run]
  split
  · rename_i is
    by_cases not : s.advance.kind = .keyword .NOT
    · simp [not, other is _ (Or.inr ⟨not, rfl⟩)]
    · simp [not, other is _ (Or.inl rfl)]
  · rfl

/-- What a predicate may end at: a token that ends a test, or an `IS` that is no test for `NULL`. -/
private def EndsPredicate (t : State) : Prop :=
  (endsRow t.kind && (BinaryOp.comparison? t.kind).isNone &&
    !([Kind.keyword .NOT, .keyword .BETWEEN, .keyword .IN, .keyword .LIKE, .keyword .ESCAPE].contains
      t.kind)) = true ∧ isNull? t = .ok none t

omit exact sound in
private theorem EndsPredicate.of_test {t : State} (halts : endsTest t.kind = true) : EndsPredicate t := by
  have other : t.kind ≠ .keyword .IS := by
    intro same
    rw [same] at halts
    cases halts
  simp only [endsTest, Bool.and_eq_true, Bool.not_eq_true', List.contains_eq_mem,
    decide_eq_false_iff_not, List.mem_cons, not_or] at halts
  constructor
  · simp [halts]
  · exact isNull?_none fun is => absurd is other

omit exact sound in
private theorem predicateEnd_pure {t : State} {e : Expr} (halts : EndsPredicate t) :
    predicateEnd i e t = .ok e t := by
  obtain ⟨kinds, null⟩ := halts
  simp only [Bool.and_eq_true, Bool.not_eq_true', List.contains_eq_mem,
    decide_eq_false_iff_not, List.mem_cons, not_or] at kinds
  refine bind_eq_ok.mpr ⟨none, t, null, bind_eq_ok.mpr ⟨t.kind, t, rfl, ?_⟩⟩
  obtain ⟨_, not, between, in_, like, _⟩ := kinds
  generalize t.kind = k at not between in_ like
  split
  · exact absurd rfl not
  · exact absurd rfl between
  · exact absurd rfl in_
  · exact absurd rfl like
  · rfl

omit exact sound in
private theorem predicateEnd_of_flag {s m t : State} {negated : Bool} {e result : Expr} {j : Keyword}
    (end_ : Bool → Parser Expr) (flag : Reads firstReading s (Form.flag .NOT) negated m)
    (kind : m.kind = .keyword j) (run : end_ negated m = .ok result t)
    (ends : j = .BETWEEN ∧ end_ = (betweenEnd i · e) ∨ j = .IN ∧ end_ = (inEnd i · e) ∨
      j = .LIKE ∧ end_ = (likeEnd i · e)) :
    endsRow s.kind = true ∧ BinaryOp.comparison? s.kind = none ∧ predicateEnd i e s = .ok result t := by
  rcases (Reads.flag_iff.mp flag).2 with ⟨rfl, not, rfl⟩ | ⟨rfl, rfl⟩
  · refine ⟨by rw [not]; rfl, by rw [not]; rfl, ?_⟩
    have null : isNull? s = .ok none s := isNull?_none fun is => by simp [not] at is
    refine bind_eq_ok.mpr ⟨none, s, null, bind_eq_ok.mpr ⟨.keyword .NOT, s, not ▸ rfl, ?_⟩⟩
    refine bind_eq_ok.mpr ⟨(), s.advance, rfl, bind_eq_ok.mpr
      ⟨.keyword j, s.advance, kind_eq_ok.mpr ⟨kind.symm, rfl⟩, ?_⟩⟩
    rcases ends with ⟨rfl, rfl⟩ | ⟨rfl, rfl⟩ | ⟨rfl, rfl⟩ <;> exact run
  · have null : isNull? m = .ok none m := isNull?_none fun is => by
      rcases ends with ⟨rfl, _⟩ | ⟨rfl, _⟩ | ⟨rfl, _⟩ <;> simp [kind] at is
    rcases ends with ⟨rfl, rfl⟩ | ⟨rfl, rfl⟩ | ⟨rfl, rfl⟩ <;>
      refine ⟨by rw [kind]; rfl, by rw [kind]; rfl, bind_eq_ok.mpr ⟨none, m, null, bind_eq_ok.mpr
        ⟨_, m, rfl, ?_⟩⟩⟩ <;> (rw [kind]; exact run)

private theorem predicate_exact {s t : State} {e : Expr} (less : s.remaining < n + 1)
    (reads : Reads firstReading s Grammar.predicate e t) (halts : EndsPredicate t) :
    predicate i s = .ok e t := by
  have kinds := halts.1
  simp only [Bool.and_eq_true, Bool.not_eq_true', List.contains_eq_mem, Option.isNone_iff_eq_none,
    decide_eq_false_iff_not, List.mem_cons, not_or] at kinds
  obtain ⟨⟨ends, missing⟩, _, _, _, _, noEscape, _⟩ := kinds
  rcases Reads.or_iff.mp reads with query | row
  · obtain ⟨q, words, rfl⟩ := Reads.map_iff.mp query
    obtain ⟨kind, _, inside⟩ := Reads.mark_strict ⟨rfl, by simp⟩ words
    have fewer := inside.1.remaining_advance (by rw [(Reads.parens_iff.mp inside).2.1]; rfl)
    have fewer' := s.advance_within.remaining_le
    exact bind_eq_ok.mpr ⟨true, _, eat_of_kind kind, map_of_ok
      ((exact .query).enclosed rfl (by omega) inside)⟩
  · obtain ⟨_, f, m, head, last, rfl⟩ := Reads.seq_iff.mp row
    obtain ⟨left, first, rfl⟩ := Reads.map_iff.mp head
    have fewer := first.remaining_le
    have starts := row_starts first
    have after : endsRow m.kind = true → Parse.row i s = .ok left m :=
      row_exact exact sound s left m less first
    simp only [Reads.or_iff] at last
    rcases last with comparison | null | between | in_ | like | alone
    · obtain ⟨op, value, run⟩ := comparisonEnd_exact exact sound (by omega) comparison ends
      exact predicate_of_comparison starts (after (comparison?_ends _ _ value)) value run
    · obtain ⟨negated, run, same, kind⟩ := isNull?_exact left null
      refine predicate_of_end (e := f left) starts (after (by rw [kind]; rfl)) (by rw [kind]; rfl) ?_
      exact bind_eq_ok.mpr ⟨some negated, t, run, by rw [same]; rfl⟩
    · obtain ⟨negated, u, flag, kind, run⟩ := betweenEnd_exact exact sound (by omega) between ends
      obtain ⟨ends, missing, run⟩ := predicateEnd_of_flag _ flag kind run (Or.inl ⟨rfl, rfl⟩)
      exact predicate_of_end starts (after ends) missing run
    · obtain ⟨negated, u, flag, kind, run⟩ := inEnd_exact exact sound (by omega) in_
      obtain ⟨ends, missing, run⟩ := predicateEnd_of_flag _ flag kind run (Or.inr (Or.inl ⟨rfl, rfl⟩))
      exact predicate_of_end starts (after ends) missing run
    · obtain ⟨negated, u, flag, kind, run⟩ := likeEnd_exact exact sound (by omega) like
        (by simp [ends, noEscape])
      obtain ⟨ends, missing, run⟩ := predicateEnd_of_flag _ flag kind run (Or.inr (Or.inr ⟨rfl, rfl⟩))
      exact predicate_of_end starts (after ends) missing run
    · obtain ⟨_, rfl, rfl⟩ := Reads.pure_iff.mp alone
      exact predicate_of_end starts (after ends) missing (predicateEnd_pure halts)

private theorem truthTest_exact : Exact (n + 1) (truthTest i) Grammar.truthTest endsTest := by
  intro s e t less reads halts
  obtain ⟨_, f, m, head, last, rfl⟩ := Reads.seq_iff.mp reads
  obtain ⟨operand, first, rfl⟩ := Reads.map_iff.mp head
  rcases Reads.or_iff.mp last with test | alone
  · obtain ⟨_, value, u, start, truth, rfl⟩ := Reads.seq_iff.mp test
    obtain ⟨negated, words, rfl⟩ := Reads.map_iff.mp start
    obtain ⟨is, _, flag⟩ := Reads.mark_strict (k := .keyword .IS) ⟨rfl, by simp⟩ words
    obtain ⟨_, found, rfl⟩ := Reads.truthValue_iff.mp truth
    have run : eat (.keyword .NOT) m.advance = .ok negated u := by
      rcases (Reads.flag_iff.mp flag).2 with ⟨rfl, not, rfl⟩ | ⟨rfl, rfl⟩
      · exact eat_of_kind not
      · exact eat_of_ne (by rintro same; rw [same] at found; cases found)
    have ends : EndsPredicate m := by
      refine ⟨by rw [is]; rfl, isNull?_none fun _ v place null => ?_⟩
      rcases (Reads.flag_iff.mp flag).2 with ⟨rfl, not, rfl⟩ | ⟨rfl, rfl⟩ <;>
        rcases place with rfl | ⟨not', rfl⟩
      · simp [not] at null
      · rw [null] at found
        cases found
      · rw [null] at found
        cases found
      · rw [not'] at found
        cases found
    exact bind_eq_ok.mpr ⟨operand, m, predicate_exact exact sound less first ends, bind_eq_ok.mpr
      ⟨true, _, eat_of_kind is, bind_eq_ok.mpr ⟨negated, u, run, bind_eq_ok.mpr ⟨some value, _,
      take?_eq_ok.mpr (Or.inl ⟨value, rfl, found, rfl⟩), rfl⟩⟩⟩⟩
  · obtain ⟨_, rfl, rfl⟩ := Reads.pure_iff.mp alone
    have ends := EndsPredicate.of_test halts
    refine bind_eq_ok.mpr ⟨operand, t, predicate_exact exact sound less first ends, bind_eq_ok.mpr
      ⟨false, t, eat_of_ne ?_, rfl⟩⟩
    intro same
    rw [same] at halts
    cases halts

theorem negation_exact : Exact (n + 1) (negation i) Grammar.negation endsTest := by
  intro s e t less reads halts
  rcases Reads.or_iff.mp reads with not | test
  · obtain ⟨a, words, rfl⟩ := Reads.map_iff.mp not
    obtain ⟨kind, _, inside⟩ := Reads.mark_strict ⟨rfl, by simp⟩ words
    have fewer := words.1.remaining_advance (by rw [kind]; rfl)
    exact bind_eq_ok.mpr ⟨true, _, eat_of_kind kind,
      map_of_ok (exact .negated _ a t (by omega) inside halts)⟩
  · have starts := truthTest_starts test
    exact bind_eq_ok.mpr ⟨false, s, eat_of_ne (by rintro same; simp [same, rowStart] at starts),
      truthTest_exact exact sound s e t less test halts⟩

theorem condition_exact : Exact (n + 1) (condition i) Grammar.condition endsCondition := by
  rw [Grammar.condition_eq, Grammar.conjunction_eq]
  exact ((negation_exact exact sound).chain and?_operators.single and?_ends).chain or?_operators.single
    or?_ends

end

end SelectSyntax.Parse
