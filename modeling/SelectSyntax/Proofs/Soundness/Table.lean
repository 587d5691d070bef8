import SelectSyntax.Proofs.Soundness.Condition

/-!
What the parsers of table references accept is derived, as long as the constructs inside are.
-/

set_option autoImplicit false
set_option relaxedAutoImplicit false

namespace SelectSyntax.Parse

open Grammar (Allows)
open Token (Kind Keyword)
open SyntaxTree

section
variable {allows : Allows} {n : Nat} {i : Inner}
  (inside : ∀ e, Sound allows n (i e) (Form.construct e))
include inside

variable (guards : Guards allows n i)
include guards

variable (allows) in
omit inside guards in
private theorem joinSide?_sound : SoundItem allows n joinSide? Grammar.joinSide := by
  intro s o t complete _ run
  have ahead := s.advance_within.complete complete
  obtain ⟨k, m, taken, next⟩ := bind_eq_ok.mp run
  obtain ⟨found, rfl⟩ := kind_eq_ok.mp taken
  -- the words of an outer join
  have outer : ∀ (make : Bool → JoinSide) (j : Keyword), m.kind = .keyword j →
      (do
        advance
        let outer ← eat (.keyword .OUTER)
        pure (some (make outer)) : Parser (Option JoinSide)) m = .ok o t →
      ∃ side, o = some side ∧ Reads allows m (make <$> (Form.word j *> Form.flag .OUTER)) side t := by
    intro make j word run
    obtain ⟨_, u, moved, rest⟩ := bind_eq_ok.mp run
    obtain rfl := advance_eq_ok.mp moved
    obtain ⟨b, v, taken, last⟩ := bind_eq_ok.mp rest
    obtain ⟨rfl, rfl⟩ := pure_eq_ok.mp last
    refine ⟨_, rfl, Reads.map_iff.mpr ⟨b, Reads.seqRight_iff.mpr ⟨(), _,
      Reads.word_iff.mpr ⟨complete, word, rfl⟩, ?_⟩, rfl⟩⟩
    rcases eat_eq_ok.mp taken with ⟨rfl, outer, rfl⟩ | ⟨rfl, _, rfl⟩
    · exact flag_of_kind ahead outer
    · exact Reads.flag_iff.mpr ⟨ahead, Or.inr ⟨rfl, rfl⟩⟩
  simp only [Grammar.joinSide, Reads.or_iff]
  split at next
  · obtain ⟨rfl, rfl⟩ := pure_eq_ok.mp next
    exact Or.inl ⟨_, rfl, Or.inr (Or.inr (Or.inr (Or.inr (Reads.pure_iff.mpr ⟨complete, rfl, rfl⟩))))⟩
  · obtain ⟨_, u, moved, last⟩ := bind_eq_ok.mp next
    obtain rfl := advance_eq_ok.mp moved
    obtain ⟨rfl, rfl⟩ := pure_eq_ok.mp last
    exact Or.inl ⟨_, rfl, Or.inl (Reads.map_iff.mpr ⟨(), Reads.word_iff.mpr
      ⟨complete, found.symm, rfl⟩, rfl⟩)⟩
  · obtain ⟨side, rfl, reads⟩ := outer .left _ found.symm next
    exact Or.inl ⟨side, rfl, Or.inr (Or.inl reads)⟩
  · obtain ⟨side, rfl, reads⟩ := outer .right _ found.symm next
    exact Or.inl ⟨side, rfl, Or.inr (Or.inr (Or.inl reads))⟩
  · obtain ⟨side, rfl, reads⟩ := outer .full _ found.symm next
    exact Or.inl ⟨side, rfl, Or.inr (Or.inr (Or.inr (Or.inl reads)))⟩
  · obtain ⟨rfl, rfl⟩ := pure_eq_ok.mp next
    exact Or.inr ⟨rfl, rfl⟩

variable (allows) in
omit inside guards in
/-- The words of a join are read with the condition that they ask for, or without. -/
private theorem joinKind?_sound {s t : State} {o : Option JoinKind} (complete : s.Complete)
    (run : joinKind? s = .ok o t) :
    (∃ k, o = some k ∧ if k.requiresCondition then Reads allows s Grammar.conditionedJoin k t
      else Reads allows s Grammar.plainJoin k t) ∨ o = none ∧ t = s := by
  have ahead := s.advance_within.complete complete
  obtain ⟨b, m, taken, next⟩ := bind_eq_ok.mp run
  rcases eat_eq_ok.mp taken with ⟨rfl, cross, rfl⟩ | ⟨rfl, _, rfl⟩
  · obtain ⟨_, u, taken, last⟩ := bind_eq_ok.mp next
    obtain ⟨join, rfl⟩ := expect_eq_ok.mp taken
    obtain ⟨rfl, rfl⟩ := pure_eq_ok.mp last
    exact Or.inl ⟨_, rfl, Reads.or_iff.mpr (Or.inl (Reads.map_iff.mpr ⟨(), Reads.seqRight_iff.mpr
      ⟨(), _, Reads.word_iff.mpr ⟨complete, cross, rfl⟩, Reads.word_iff.mpr ⟨ahead, join, rfl⟩⟩,
      rfl⟩))⟩
  · obtain ⟨natural, u, taken, rest⟩ := bind_eq_ok.mp next
    obtain ⟨side, v, read, others⟩ := bind_eq_ok.mp rest
    have completeU : u.Complete := by
      rcases eat_eq_ok.mp taken with ⟨_, _, rfl⟩ | ⟨_, _, rfl⟩
      · exact ahead
      · exact complete
    rcases joinSide?_sound allows (n := u.remaining + 1) u side v completeU (Nat.lt_succ_self _)
      read with ⟨side, rfl, reads⟩ | ⟨rfl, rfl⟩
    · obtain ⟨b, w, taken', last⟩ := bind_eq_ok.mp others
      rcases eat_eq_ok.mp taken' with ⟨rfl, join, rfl⟩ | ⟨rfl, _, rfl⟩
      · obtain ⟨rfl, rfl⟩ := pure_eq_ok.mp last
        have word : Reads allows v (Form.word .JOIN) () v.advance :=
          Reads.word_iff.mpr ⟨reads.complete, join, rfl⟩
        rcases eat_eq_ok.mp taken with ⟨rfl, _, rfl⟩ | ⟨rfl, _, rfl⟩
        · refine Or.inl ⟨_, rfl, Reads.or_iff.mpr (Or.inr (Reads.seqLeft_iff.mpr ⟨(), v,
            Reads.map_iff.mpr ⟨side, Reads.seqRight_iff.mpr ⟨(), _, ?_, reads⟩, rfl⟩, word⟩))⟩
          exact Reads.word_iff.mpr ⟨complete, by assumption, rfl⟩
        · exact Or.inl ⟨_, rfl, Reads.seqLeft_iff.mpr ⟨(), v, Reads.map_iff.mpr ⟨side, reads, rfl⟩,
            word⟩⟩
      · cases last
    · rcases eat_eq_ok.mp taken with ⟨rfl, _, rfl⟩ | ⟨rfl, _, rfl⟩
      · cases others
      · obtain ⟨rfl, rfl⟩ := pure_eq_ok.mp others
        exact Or.inr ⟨rfl, rfl⟩

private theorem tablePrimary_sound :
    Sound allows (n + 1) (tablePrimary i) Grammar.tablePrimary := by
  intro s e t complete less run
  obtain ⟨k, m, taken, next⟩ := bind_eq_ok.mp run
  obtain ⟨found, rfl⟩ := kind_eq_ok.mp taken
  simp only [Grammar.tablePrimary, Reads.or_iff]
  split at next
  · obtain ⟨path, u, read, rest⟩ := bind_eq_ok.mp next
    have names : Reads allows m Grammar.path path u :=
      (identifier_sound (n := n + 1)).separated ⟨rfl, by simp⟩ m path u complete less read
    obtain ⟨o, v, read, last⟩ := bind_eq_ok.mp rest
    obtain ⟨rfl, rfl⟩ := pure_eq_ok.mp last
    have fewer := names.remaining_le
    have renamed : Reads allows u (Form.optional Grammar.nameAfterAs) o t :=
      optionalAlias_sound (n := n + 1) u o t names.complete (by omega) read
    exact Or.inl (Reads.seq_iff.mpr ⟨_, o, u, Reads.map_iff.mpr ⟨path, names, rfl⟩, renamed, rfl⟩)
  · obtain ⟨x, u, read, rest⟩ := bind_eq_ok.mp next
    obtain ⟨kind, v, closes, rfl, readings⟩ :=
      parenthesized_sound inside guards.forward (inside .table) complete less read
    rcases readings with ⟨q, rfl, reads⟩ | ⟨b, rfl, reads, _⟩
    · have first : Reads allows m (.parens (Form.construct .query)) q v.advance :=
        Reads.parens_iff.mpr ⟨complete, kind, v, reads, closes, rfl⟩
      have fewer := first.remaining_le
      obtain ⟨name, w, read, others⟩ := bind_eq_ok.mp rest
      have second : Reads allows v.advance Grammar.nameAfterAs name w :=
        requiredAlias_sound (n := n + 1) _ name w first.complete (by omega) read
      have fewer' := second.remaining_le
      obtain ⟨columns, x, read, last⟩ := bind_eq_ok.mp others
      obtain ⟨rfl, rfl⟩ := pure_eq_ok.mp last
      have third : Reads allows w Grammar.columns columns t :=
        optionalColumns_sound (n := n + 1) w columns t second.complete (by omega) read
      exact Or.inr (Or.inl (Reads.seq_iff.mpr ⟨_, columns, w, Reads.seq_iff.mpr ⟨_, name, _,
        Reads.map_iff.mpr ⟨q, first, rfl⟩, second, rfl⟩, third, rfl⟩))
    · obtain ⟨rfl, rfl⟩ := pure_eq_ok.mp rest
      exact Or.inr (Or.inr (Reads.parens_iff.mpr ⟨complete, kind, v, reads, closes, rfl⟩))
  · cases next

private theorem join?_sound : SoundItem allows (n + 1) (join? i) Grammar.joinEnd := by
  intro s o t complete less run
  obtain ⟨k, m, read, next⟩ := bind_eq_ok.mp run
  rcases joinKind?_sound allows complete read with ⟨k, rfl, first⟩ | ⟨rfl, rfl⟩
  · obtain ⟨right, u, read, rest⟩ := bind_eq_ok.mp next
    obtain ⟨on, v, taken, last⟩ := bind_eq_ok.mp rest
    obtain ⟨rfl, rfl⟩ := pure_eq_ok.mp last
    refine Or.inl ⟨_, rfl, ?_⟩
    rw [joinCondition] at taken
    split at taken
    · rename_i required
      rw [if_pos required] at first
      have fewer := first.remaining_le
      have second := tablePrimary_sound inside guards m right u first.complete (by omega) read
      have fewer' := second.remaining_le
      obtain ⟨_, w, found, condition⟩ := bind_eq_ok.mp taken
      obtain ⟨word, rfl⟩ := expect_eq_ok.mp found
      obtain ⟨c, read, rfl⟩ := map_eq_ok.mp condition
      have third := after_token inside second.complete (by omega) (by rw [word]; rfl) read
      exact Reads.or_iff.mpr (Or.inl (Reads.seq_iff.mpr ⟨_, c, u, Reads.seq_iff.mpr ⟨_, right, m,
        Reads.map_iff.mpr ⟨k, first, rfl⟩, second, rfl⟩, Reads.seqRight_iff.mpr ⟨(), _,
        Reads.word_iff.mpr ⟨second.complete, word, rfl⟩, third⟩, rfl⟩))
    · rename_i plain
      rw [if_neg plain] at first
      have fewer := first.remaining_le
      have second := tablePrimary_sound inside guards m right u first.complete (by omega) read
      obtain ⟨j, w, looked, none⟩ := bind_eq_ok.mp taken
      obtain ⟨rfl, rfl⟩ := kind_eq_ok.mp looked
      split at none
      · cases none
      · obtain ⟨rfl, rfl⟩ := pure_eq_ok.mp none
        exact Reads.or_iff.mpr (Or.inr (Reads.seq_iff.mpr ⟨_, right, m,
          Reads.map_iff.mpr ⟨k, first, rfl⟩, second, rfl⟩))
  · obtain ⟨rfl, rfl⟩ := pure_eq_ok.mp next
    exact Or.inr ⟨rfl, rfl⟩

theorem table_sound : Sound allows (n + 1) (table i) Grammar.table :=
  .withItems _ (tablePrimary_sound inside guards) (join?_sound inside guards)

end

end SelectSyntax.Parse
