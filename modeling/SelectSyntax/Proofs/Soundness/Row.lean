import SelectSyntax.Proofs.Soundness.Basic

/-!
What the parsers of row expressions accept is derived, as long as the constructs inside are.
-/

set_option autoImplicit false
set_option relaxedAutoImplicit false

namespace SelectSyntax.Parse

open Grammar (Allows)
open Token (Kind Keyword)
open SyntaxTree

section
variable {allows : Allows} {n : Nat} {i : Inner}
  (inside : ∀ e, Sound allows n (i e) (Form.construct e))
include inside

private theorem arguments_sound : Sound allows (n + 1) (arguments i) Grammar.arguments := by
  intro s a t complete less run
  obtain ⟨_, m, opens, next⟩ := bind_eq_ok.mp run
  obtain ⟨kind, rfl⟩ := expect_eq_ok.mp opens
  have ahead := s.advance_within.complete complete
  have fewer := complete.remaining_advance (by rw [kind]; rfl)
  obtain ⟨b, u, taken, rest⟩ := bind_eq_ok.mp next
  rcases eat_eq_ok.mp taken with ⟨rfl, closes, rfl⟩ | ⟨rfl, _, rfl⟩
  · obtain ⟨rfl, rfl⟩ := pure_eq_ok.mp rest
    exact Reads.parens_iff.mpr ⟨complete, kind, _,
      Reads.or_iff.mpr (Or.inr (Reads.pure_iff.mpr ⟨ahead, rfl, rfl⟩)), closes, rfl⟩
  · obtain ⟨args, v, read, rest⟩ := bind_eq_ok.mp rest
    have reads := conditions_sound inside _ args v ahead (by omega) read
    obtain ⟨b, u, taken, last⟩ := bind_eq_ok.mp rest
    rcases eat_eq_ok.mp taken with ⟨rfl, closes, rfl⟩ | ⟨rfl, _, rfl⟩
    · obtain ⟨rfl, rfl⟩ := pure_eq_ok.mp last
      exact Reads.parens_iff.mpr ⟨complete, kind, v, Reads.or_iff.mpr (Or.inl reads), closes, rfl⟩
    · cases last

private theorem columnOrCall_sound :
    Sound allows (n + 1) (columnOrCall i) (Grammar.column <|> Grammar.call) := by
  intro s e t complete less run
  obtain ⟨path, m, read, next⟩ := bind_eq_ok.mp run
  obtain ⟨k, u, looked, rest⟩ := bind_eq_ok.mp next
  obtain ⟨rfl, rfl⟩ := kind_eq_ok.mp looked
  have reads := columnPathWithin_sound allows _ complete read
  split at rest
  · rename_i opens
    obtain ⟨args, v, read, last⟩ := bind_eq_ok.mp rest
    obtain ⟨rfl, rfl⟩ := pure_eq_ok.mp last
    simp only [Bool.and_eq_true, Bool.not_eq_true', beq_iff_eq] at opens
    have names := (reads.resolve_left (by simp [opens.1])).2
    have fewer := names.remaining_le
    refine Reads.or_iff.mpr (Or.inr (Reads.seq_iff.mpr ⟨_, args, u, Reads.map_iff.mpr ⟨_,
      Reads.or_iff.mpr (Or.inl names), rfl⟩, ?_, rfl⟩))
    exact arguments_sound inside _ args _ names.complete (by omega) read
  · obtain ⟨rfl, rfl⟩ := pure_eq_ok.mp rest
    refine Reads.or_iff.mpr (Or.inl (Reads.or_iff.mpr ?_))
    rcases reads with ⟨ends, names⟩ | ⟨ends, names⟩ <;> rw [ends]
    · obtain ⟨_, m, names, star⟩ := Reads.seqLeft_iff.mp names
      exact Or.inl (Reads.seqLeft_iff.mpr ⟨_, m, Reads.map_iff.mpr ⟨_, names, rfl⟩, star⟩)
    · exact Or.inr (Reads.map_iff.mpr ⟨_, names, rfl⟩)

private theorem branch?_sound : SoundItem allows (n + 1) (branch? i) Grammar.case.branch := by
  intro s o t complete less run
  obtain ⟨b, m, taken, next⟩ := bind_eq_ok.mp run
  rcases eat_eq_ok.mp taken with ⟨rfl, kind, rfl⟩ | ⟨rfl, _, rfl⟩
  · obtain ⟨condition, u, read, rest⟩ := bind_eq_ok.mp next
    have first := after_token inside complete less (by rw [kind]; rfl) read
    obtain ⟨_, v, taken, rest⟩ := bind_eq_ok.mp rest
    obtain ⟨then_, rfl⟩ := expect_eq_ok.mp taken
    obtain ⟨result, w, read, last⟩ := bind_eq_ok.mp rest
    obtain ⟨rfl, rfl⟩ := pure_eq_ok.mp last
    have fewer := first.remaining_le
    have less' := s.advance_within.remaining_le
    have second := after_token inside first.complete (by omega) (by rw [then_]; rfl) read
    refine Or.inl ⟨_, rfl, Reads.seq_iff.mpr ⟨_, result, u, Reads.map_iff.mpr ⟨condition, ?_, rfl⟩,
      ?_, rfl⟩⟩
    · exact Reads.seqRight_iff.mpr ⟨(), _, Reads.word_iff.mpr ⟨complete, kind, rfl⟩, first⟩
    · exact Reads.seqRight_iff.mpr ⟨(), _, Reads.word_iff.mpr ⟨first.complete, then_, rfl⟩, second⟩
  · obtain ⟨rfl, rfl⟩ := pure_eq_ok.mp next
    exact Or.inr ⟨rfl, rfl⟩

/-- A clause that starts with a keyword and holds a condition. -/
theorem clause_sound (k : Keyword) : SoundItem allows (n + 1)
    (after? (.keyword k) (i .condition)) (Form.word k *> Form.construct .condition) := by
  intro s o t complete less run
  obtain ⟨b, m, taken, next⟩ := bind_eq_ok.mp run
  rcases eat_eq_ok.mp taken with ⟨rfl, kind, rfl⟩ | ⟨rfl, _, rfl⟩
  · obtain ⟨a, u, read, last⟩ := bind_eq_ok.mp next
    obtain ⟨rfl, rfl⟩ := pure_eq_ok.mp last
    have reads := after_token inside complete less (by rw [kind]; rfl) read
    exact Or.inl ⟨a, rfl, Reads.seqRight_iff.mpr ⟨(), _, Reads.word_iff.mpr ⟨complete, kind, rfl⟩,
      reads⟩⟩
  · obtain ⟨rfl, rfl⟩ := pure_eq_ok.mp next
    exact Or.inr ⟨rfl, rfl⟩

private theorem caseEnd_sound {o : Option Expr} {branches : List (Expr × Expr)} {s t : State} {e : Expr}
    (complete : s.Complete) (less : s.remaining < n + 1) (run : caseEnd i o branches s = .ok e t) :
    ∃ otherwise m, Reads allows s
        (Form.optional (Form.word .ELSE *> Form.construct .condition)) otherwise m ∧
      m.kind = .keyword .END ∧ t = m.advance ∧ e = .case o branches otherwise := by
  obtain ⟨otherwise, m, read, rest⟩ := bind_eq_ok.mp run
  have last := (clause_sound inside .ELSE).optional s otherwise m complete less read
  obtain ⟨b, u, taken, ends⟩ := bind_eq_ok.mp rest
  rcases eat_eq_ok.mp taken with ⟨rfl, closes, rfl⟩ | ⟨rfl, _, rfl⟩
  · obtain ⟨rfl, rfl⟩ := pure_eq_ok.mp ends
    exact ⟨otherwise, m, last, closes, rfl, rfl⟩
  · cases otherwise <;> cases ends

private theorem caseExpr_sound {r : Parser Expr} {k : Nat} (le : k ≤ n)
    (operand : Sound allows k r Form.row) : Sound allows (k + 1) (caseExpr i r) Grammar.case := by
  intro s e t complete less run
  obtain ⟨_, m, taken, next⟩ := bind_eq_ok.mp run
  obtain ⟨kind, rfl⟩ := expect_eq_ok.mp taken
  obtain ⟨j, u, looked, rest⟩ := bind_eq_ok.mp next
  obtain ⟨rfl, rfl⟩ := kind_eq_ok.mp looked
  have ahead := s.advance_within.complete complete
  have fewer := complete.remaining_advance (by rw [kind]; rfl)
  -- what follows the operand
  have ends : ∀ (o : Option Expr) (u : State), Reads allows s.advance (Form.optional Form.row) o u →
      (do
        let branches ← many (branch? i)
        if branches.isEmpty then unexpected [.keyword .WHEN] else caseEnd i o branches) u = .ok e t →
      Reads allows s Grammar.case e t := by
    intro o u first run
    have fewer' := first.remaining_le
    obtain ⟨branches, v, read, rest⟩ := bind_eq_ok.mp run
    have others := (branch?_sound inside).many u branches v first.complete (by omega) read
    cases branches with
    | nil => cases rest
    | cons branch branches =>
        obtain ⟨w, one, more⟩ := Reads.many_cons_iff.mp others
        have fewer'' := others.remaining_le
        obtain ⟨otherwise, x, last, closes, rfl, rfl⟩ :=
          caseEnd_sound inside others.complete (by omega) rest
        simp only [Grammar.case, Reads.seqLeft_iff, Reads.seq_iff, Reads.map_iff,
          Reads.seqRight_iff, Reads.word_iff]
        exact ⟨(), x, ⟨_, otherwise, v, ⟨_, branches, w, ⟨_, branch, u, ⟨o, ⟨(), _,
          ⟨complete, kind, rfl⟩, first⟩, rfl⟩, one, rfl⟩, more, rfl⟩, last, rfl⟩,
          last.complete, closes, rfl⟩
  split at rest
  · exact ends none s.advance (Reads.optional_iff.mpr (Or.inr ⟨rfl, ahead, rfl⟩)) rest
  · obtain ⟨o, v, read, rest⟩ := bind_eq_ok.mp rest
    obtain ⟨first, value, rfl⟩ := map_eq_ok.mp read
    have reads := operand _ first v ahead (by omega) value
    exact ends _ v (Reads.optional_iff.mpr (Or.inl ⟨_, rfl, reads⟩)) rest

private theorem signed_sound {k : Kind} {op : UnaryOp} {s t : State} {e : Expr} (single : Reads.Single k)
    (complete : s.Complete) (less : s.remaining < n + 1) (kind : s.kind = k)
    (run : (do advance; Expr.unary op <$> i .signed) s = .ok e t) :
    Reads allows s (Expr.unary op <$> (Form.mark k *> Form.construct .signed)) e t := by
  obtain ⟨_, u, taken, last⟩ := bind_eq_ok.mp run
  obtain rfl := advance_eq_ok.mp taken
  obtain ⟨a, read, rfl⟩ := map_eq_ok.mp last
  have live : s.kind.isTerminal = false := by
    have plain := single.1
    simp only [Symbol.isPlain, Bool.and_eq_true, Bool.not_eq_true'] at plain
    rw [kind]
    exact plain.2
  have reads := after_token inside complete less live read
  exact Reads.map_iff.mpr ⟨a, Reads.seqRight_iff.mpr
    ⟨(), _, (Reads.mark_iff single).mpr ⟨complete, kind, rfl⟩, reads⟩, rfl⟩

omit inside in
private theorem literal_sound {value e : Expr} {s t : State} (run : (do advance; pure value) s = .ok e t)
    (reads : Reads allows s Grammar.literal value s.advance) : Reads allows s Grammar.literal e t := by
  obtain ⟨_, u, taken, last⟩ := bind_eq_ok.mp run
  obtain rfl := advance_eq_ok.mp taken
  obtain ⟨rfl, rfl⟩ := pure_eq_ok.mp last
  exact reads

private theorem wordCall_sound {k : Keyword} {s t : State} {e : Expr} (isName : k.isFunctionName = true)
    (complete : s.Complete) (less : s.remaining < n + 1) (kind : s.kind = .keyword k)
    (run : (do advance; Expr.call [s.token.raw] <$> arguments i) s = .ok e t) :
    Reads allows s Grammar.call e t := by
  obtain ⟨_, u, taken, last⟩ := bind_eq_ok.mp run
  obtain rfl := advance_eq_ok.mp taken
  obtain ⟨args, read, rfl⟩ := map_eq_ok.mp last
  have fewer := s.advance_within.remaining_le
  have word : Reads allows s Grammar.functionWord s.token.raw s.advance :=
    Reads.functionWord_iff.mpr ⟨_, kind, isName, complete, rfl, rfl⟩
  have reads := arguments_sound inside _ args t word.complete (by omega) read
  exact Reads.seq_iff.mpr ⟨_, args, s.advance, Reads.map_iff.mpr ⟨[s.token.raw],
    Reads.or_iff.mpr (Or.inr (Reads.map_iff.mpr ⟨_, word, rfl⟩)), rfl⟩, reads, rfl⟩

variable (guards : Guards allows n i)
include guards

theorem primary_sound {r : Parser Expr} {k : Nat} (le : k ≤ n)
    (operand : Sound allows k r Form.row) : Sound allows (k + 1) (primary i r) Grammar.primary := by
  intro s e t complete less next
  have looked : token s = .ok s.token s := rfl
  rw [primary, bind_of_ok looked] at next
  have word : ∀ j, s.token.kind = .keyword j → Reads allows s (Form.word j) () s.advance :=
    fun j kind => Reads.word_iff.mpr ⟨complete, kind, rfl⟩
  have names : columnOrCall i s = .ok e t → Reads allows s Grammar.primary e t := by
    intro run
    have reads := columnOrCall_sound inside _ _ _ complete (by omega) run
    simp only [Grammar.primary, Reads.or_iff] at reads ⊢
    rcases reads with reads | reads
    · exact Or.inr (Or.inr (Or.inr (Or.inr (Or.inl reads))))
    · exact Or.inr (Or.inr (Or.inr (Or.inr (Or.inr (Or.inl reads)))))
  generalize kind : s.token.kind = found at next
  split at next
  case h_1 =>
    refine Reads.or_iff.mpr (Or.inl (literal_sound next ?_))
    refine Reads.or_iff.mpr (Or.inl (Reads.map_iff.mpr ⟨s.token.raw, ?_, rfl⟩))
    exact (Reads.text_iff ⟨rfl, by simp⟩).mpr ⟨complete, kind, by simp [Token.value, kind], rfl⟩
  case h_2 =>
    refine Reads.or_iff.mpr (Or.inl (literal_sound next ?_))
    simp only [Grammar.literal, Reads.or_iff]
    exact Or.inr (Or.inl (Reads.map_iff.mpr ⟨s.token.value, (Reads.text_iff ⟨rfl, by simp⟩).mpr
      ⟨complete, kind, rfl, rfl⟩, rfl⟩))
  case h_3 =>
    refine Reads.or_iff.mpr (Or.inl (literal_sound next ?_))
    simp only [Grammar.literal, Reads.or_iff]
    exact Or.inr (Or.inr (Or.inl (Reads.map_iff.mpr ⟨(), word _ kind, rfl⟩)))
  case h_4 =>
    refine Reads.or_iff.mpr (Or.inl (literal_sound next ?_))
    simp only [Grammar.literal, Reads.or_iff]
    exact Or.inr (Or.inr (Or.inr (Or.inl (Reads.map_iff.mpr ⟨(), word _ kind, rfl⟩))))
  case h_5 =>
    refine Reads.or_iff.mpr (Or.inl (literal_sound next ?_))
    simp only [Grammar.literal, Reads.or_iff]
    exact Or.inr (Or.inr (Or.inr (Or.inr (Reads.map_iff.mpr ⟨(), word _ kind, rfl⟩))))
  case h_6 =>
    obtain ⟨position, taken, rfl⟩ := map_eq_ok.mp next
    cases taken
    simp only [Grammar.primary, Reads.or_iff]
    exact Or.inr (Or.inl (Reads.parameter_iff.mpr ⟨complete, kind, rfl, rfl⟩))
  case h_7 =>
    have reads := signed_sound inside ⟨rfl, by simp⟩ complete (by omega) kind next
    simp only [Grammar.primary, Grammar.signed, Reads.or_iff]
    exact Or.inr (Or.inr (Or.inl (Or.inl reads)))
  case h_8 =>
    have reads := signed_sound inside ⟨rfl, by simp⟩ complete (by omega) kind next
    simp only [Grammar.primary, Grammar.signed, Reads.or_iff]
    exact Or.inr (Or.inr (Or.inl (Or.inr reads)))
  case h_9 =>
    have reads := caseExpr_sound inside le operand _ _ _ complete less next
    simp only [Grammar.primary, Reads.or_iff]
    exact Or.inr (Or.inr (Or.inr (Or.inl reads)))
  case h_10 => exact names next
  case h_11 => exact names next
  case h_12 =>
    obtain ⟨x, read, rfl⟩ := map_eq_ok.mp next
    have reads := parenthesized_prefer inside ofParenthesis guards (conditions_sound inside) complete
      (by omega) read
    simp only [Grammar.primary, Grammar.parenthesis_eq, Reads.or_iff]
    exact Or.inr (Or.inr (Or.inr (Or.inr (Or.inr (Or.inr reads)))))
  case h_13 =>
    split at next
    · rename_i isName
      have reads := wordCall_sound inside isName complete (by omega) kind next
      simp only [Grammar.primary, Reads.or_iff]
      exact Or.inr (Or.inr (Or.inr (Or.inr (Or.inr (Or.inl reads)))))
    · cases next
  case h_14 => cases next

private theorem rowWithin_sound (k : Nat) (le : k ≤ n + 1) :
    Sound allows k (rowWithin i k) Grammar.sum := by
  induction k with
  | zero =>
      intro s e t _ less _
      omega
  | succ k ih =>
      have operand : Sound allows k (rowWithin i k) Form.row := fun s e t complete less run =>
        Reads.row_iff.mpr (ih (by omega) s e t complete less run)
      rw [Grammar.sum_eq, Grammar.product_eq, Grammar.power_eq]
      exact .chain sum?_operators.single (.chain product?_operators.single (.chain power?_operators.single
        (primary_sound inside guards (by omega) operand)))

theorem row_sound : Sound allows (n + 1) (row i) Form.row := by
  intro s e t complete less run
  have enough : s.cursor.remaining + 1 ≤ n + 1 := less
  exact Reads.row_iff.mpr
    (rowWithin_sound inside guards _ enough s e t complete (Nat.lt_succ_self _) run)

end

end SelectSyntax.Parse
