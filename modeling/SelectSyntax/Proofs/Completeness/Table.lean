import SelectSyntax.Proofs.Completeness.Condition

/-!
The parsers of table references read all that is derived, as long as the constructs inside do.
-/

set_option autoImplicit false
set_option relaxedAutoImplicit false

namespace SelectSyntax.Parse

open Grammar (anyReading firstReading)
open Token (Kind Keyword)
open SyntaxTree

section
variable {n : Nat} {i : Inner}
  (exact : ∀ e, Exact n (i e) (Form.construct e) e.ends)
include exact

variable (sound : Forward (i .query) ∧ Sound anyReading n (i .query) (Form.construct .query))
include sound

private theorem tablePrimary_exact :
    Exact (n + 1) (tablePrimary i) Grammar.tablePrimary endsTablePrimary := by
  intro s e t less reads halts
  simp only [endsTablePrimary, endsPrimary, Bool.and_eq_true, bne_iff_ne] at halts
  obtain ⟨⟨⟨noDot, noParen⟩, noAs⟩, noName⟩ := halts
  simp only [Grammar.tablePrimary, Reads.or_iff, Reads.seq_iff, Reads.map_iff] at reads
  rcases reads with ⟨_, o, m, ⟨path, names, rfl⟩, renamed, rfl⟩ |
    ⟨_, columns, v, ⟨_, name, w, ⟨q, query, rfl⟩, renamed, rfl⟩, last, rfl⟩ | inner
  · have fewer := names.remaining_le
    have halts : (true && m.kind != .dot) = true := by
      rcases Reads.optional_iff.mp renamed with ⟨_, _, present⟩ | ⟨_, _, rfl⟩
      · rcases nameAfterAs_starts present with kind | kind <;> (rw [kind]; rfl)
      · simpa using noDot
    have first := (identifier_exact (n := n + 1)).separated (k := .dot) ⟨rfl, by simp⟩ rfl s path m less
      names halts
    have second := optionalAlias_exact (n := n + 1) m o t (by omega) renamed (by simp [noAs, noName])
    exact bind_eq_ok.mpr ⟨.identifier, s, kind_eq_ok.mpr ⟨(path_starts names).symm, rfl⟩,
      bind_eq_ok.mpr ⟨path, m, first, bind_eq_ok.mpr ⟨o, t, second, rfl⟩⟩⟩
  · obtain ⟨complete, kind, m, inside, closes, rfl⟩ := Reads.parens_iff.mp query
    have fewer := query.remaining_le
    have fewer' := renamed.remaining_le
    have first : parenthesized (i .query) (i .table) s = .ok (.inl q) m.advance :=
      parenthesized_query exact kind less inside closes complete
    have second := requiredAlias_exact (n := n + 1) _ name v (by omega) renamed rfl
    have third := optionalColumns_exact (n := n + 1) v columns t (by omega) last (by simpa using noParen)
    exact bind_eq_ok.mpr ⟨.leftParen, s, kind_eq_ok.mpr ⟨kind.symm, rfl⟩, bind_eq_ok.mpr
      ⟨.inl q, _, first, bind_eq_ok.mpr ⟨name, v, second, bind_eq_ok.mpr ⟨columns, t, third, rfl⟩⟩⟩⟩
  · obtain ⟨complete, kind, m, inside, closes, rfl⟩ := Reads.parens_iff.mp inner
    have fewer := complete.remaining_advance (by rw [kind]; rfl)
    have run := exact .table s.advance e m (by omega) inside (by rw [closes]; rfl)
    have none : ¬∃ q, Reads anyReading s.advance (Form.construct .query) q m := by
      rintro ⟨q, query⟩
      exact query_not_table query closes inside
    have first := parenthesized_other sound kind less complete none inside closes run
    exact bind_eq_ok.mpr ⟨.leftParen, s, kind_eq_ok.mpr ⟨kind.symm, rfl⟩, bind_eq_ok.mpr
      ⟨.inr e, _, first, rfl⟩⟩

private theorem join?_exact : ExactItem (n + 1) (join? i) Grammar.joinEnd endsJoin endsTable := by
  constructor
  · intro s a t less reads halts
    simp only [endsJoin, Bool.and_eq_true, bne_iff_ne] at halts
    obtain ⟨⟨endsRight, ends⟩, noOn⟩ := halts
    simp only [Grammar.joinEnd, Reads.or_iff, Reads.seq_iff, Reads.map_iff] at reads
    rcases reads with ⟨_, c, u, ⟨_, right, m, ⟨k, words, rfl⟩, second, rfl⟩, on, rfl⟩ |
      ⟨_, right, m, ⟨k, words, rfl⟩, second, rfl⟩
    · obtain ⟨run, required, _, fewer⟩ := conditionedJoin_run words
      obtain ⟨kind, _, condition⟩ := Reads.mark_strict ⟨rfl, by simp⟩ on
      have fewer' := second.remaining_le
      have fewer'' := u.advance_within.remaining_le
      have third := exact .condition _ c t (by omega) condition ends
      refine bind_eq_ok.mpr ⟨some k, m, run, bind_eq_ok.mpr ⟨right, u,
        tablePrimary_exact exact sound m right u (by omega) second (by rw [kind]; rfl),
        bind_eq_ok.mpr ⟨some c, t, ?_, rfl⟩⟩⟩
      rw [joinCondition, if_pos required]
      exact bind_eq_ok.mpr ⟨(), _, expect_of_kind kind, map_of_ok third⟩
    · obtain ⟨run, plain, _, fewer⟩ := plainJoin_run words
      refine bind_eq_ok.mpr ⟨some k, m, run, bind_eq_ok.mpr ⟨right, t,
        tablePrimary_exact exact sound m right t (by omega) second endsRight,
        bind_eq_ok.mpr ⟨none, t, ?_, rfl⟩⟩⟩
      rw [joinCondition, if_neg (by simp [plain])]
      refine bind_eq_ok.mpr ⟨t.kind, t, rfl, ?_⟩
      rw [if_neg noOn]
      rfl
  · intro s a t reads
    simp only [Grammar.joinEnd, Reads.or_iff, Reads.seq_iff, Reads.map_iff] at reads
    rcases reads with ⟨_, _, u, ⟨_, _, m, ⟨_, words, _⟩, second, _⟩, on, _⟩ |
      ⟨_, _, m, ⟨_, words, _⟩, second, _⟩
    · obtain ⟨_, _, start, fewer⟩ := conditionedJoin_run words
      have fewer' := second.remaining_le
      have fewer'' := on.remaining_le
      exact ⟨joinStart_ends _ start, by omega⟩
    · obtain ⟨_, _, start, fewer⟩ := plainJoin_run words
      have fewer' := second.remaining_le
      exact ⟨joinStart_ends _ start, by omega⟩
  · intro t halts
    simp only [endsTable, Bool.and_eq_true, Bool.not_eq_true', List.contains_eq_mem,
      decide_eq_false_iff_not, joinStart, List.mem_cons, List.not_mem_nil, or_false, not_or] at halts
    obtain ⟨ends, natural, cross, inner, left, right, full, join⟩ := halts
    refine ⟨ends, bind_eq_ok.mpr ⟨none, t, ?_, rfl⟩⟩
    refine bind_eq_ok.mpr ⟨false, t, eat_of_ne cross, bind_eq_ok.mpr ⟨false, t, eat_of_ne natural,
      bind_eq_ok.mpr ⟨none, t, bind_eq_ok.mpr ⟨t.kind, t, rfl, ?_⟩, rfl⟩⟩⟩
    generalize t.kind = k at inner left right full join
    split <;> first | rfl | contradiction

theorem table_exact : Exact (n + 1) (table i) Grammar.table endsTable := by
  have operand : Exact (n + 1) (tablePrimary i) Grammar.tablePrimary endsJoin :=
    (tablePrimary_exact exact sound).mono fun k ends => by
      simp only [endsJoin, Bool.and_eq_true] at ends
      exact ends.1.1
  exact .withItems _ operand (join?_exact exact sound)

end

end SelectSyntax.Parse
