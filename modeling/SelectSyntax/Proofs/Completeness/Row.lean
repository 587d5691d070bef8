import SelectSyntax.Proofs.Completeness.Starts

/-!
The parsers of row expressions read all that is derived, as long as the constructs inside do.
-/

set_option autoImplicit false
set_option relaxedAutoImplicit false

namespace SelectSyntax.Parse

open Grammar (anyReading firstReading)
open Token (Kind Keyword)
open SyntaxTree

section
variable {n : Nat} {i : Inner}
  (exact : ∀ e, Exact n (i e) (Form.construct e) e.ends)
include exact

variable (sound : Forward (i .query) ∧ Sound anyReading n (i .query) (Form.construct .query))
include sound

omit sound in
private theorem arguments_exact :
    Exact (n + 1) (arguments i) Grammar.arguments fun _ => true := by
  intro s a t less reads _
  obtain ⟨complete, kind, m, inside, closes, rfl⟩ := Reads.parens_iff.mp reads
  have fewer := complete.remaining_advance (by rw [kind]; rfl)
  refine bind_eq_ok.mpr ⟨(), _, expect_of_kind kind, ?_⟩
  rcases Reads.or_iff.mp inside with conditions | none
  · obtain ⟨_, _, _, _, first, _⟩ := Reads.separated_iff.mp conditions
    have starts := condition_starts first
    have run := conditions_exact exact s.advance a m (by omega) conditions (by rw [closes]; rfl)
    refine bind_eq_ok.mpr ⟨false, _, eat_of_ne ?_, bind_eq_ok.mpr ⟨a, m, run, bind_eq_ok.mpr
      ⟨true, _, eat_of_kind closes, rfl⟩⟩⟩
    rintro same
    simp [same, conditionStart, rowStart] at starts
  · obtain ⟨_, rfl, rfl⟩ := Reads.pure_iff.mp none
    exact bind_eq_ok.mpr ⟨true, _, eat_of_kind closes, rfl⟩

omit exact sound in
private theorem columnOrCall_column {s t : State} {e : Expr}
    (reads : Reads firstReading s Grammar.column e t) (halts : endsPrimary t.kind = true) :
    columnOrCall i s = .ok e t := by
  simp only [endsPrimary, Bool.and_eq_true, bne_iff_ne] at halts
  rcases Reads.or_iff.mp reads with all | one
  · obtain ⟨_, m, head, star⟩ := Reads.seqLeft_iff.mp all
    obtain ⟨names, points, rfl⟩ := Reads.map_iff.mp head
    have run := columnPathWithin_star _ (Nat.lt_succ_self _) (Reads.seqLeft_iff.mpr ⟨_, m, points, star⟩)
    exact bind_eq_ok.mpr ⟨(names, true), t, run, bind_eq_ok.mpr ⟨t.kind, t, rfl, rfl⟩⟩
  · obtain ⟨names, path, rfl⟩ := Reads.map_iff.mp one
    have run := columnPathWithin_path _ (Nat.lt_succ_self _) path halts.1
    refine bind_eq_ok.mpr ⟨(names, false), t, run, bind_eq_ok.mpr ⟨t.kind, t, rfl, ?_⟩⟩
    rw [if_neg (by simpa using halts.2)]
    rfl

omit sound in
private theorem columnOrCall_call {s m t : State} {names : List String} {args : List Expr}
    (less : s.remaining < n + 1) (path : Reads firstReading s Grammar.path names m)
    (reads : Reads firstReading m Grammar.arguments args t) :
    columnOrCall i s = .ok (.call names args) t := by
  have opens := (Reads.parens_iff.mp reads).2.1
  have fewer := path.remaining_le
  have run := columnPathWithin_path _ (Nat.lt_succ_self _) path (by simp [opens])
  refine bind_eq_ok.mpr ⟨(names, false), m, run, bind_eq_ok.mpr ⟨m.kind, m, rfl, ?_⟩⟩
  rw [if_pos (by simp [opens])]
  exact bind_eq_ok.mpr ⟨args, t, arguments_exact exact m args t (by omega) reads rfl, rfl⟩

omit sound in
private theorem branch?_exact : ExactItem (n + 1) (branch? i) Grammar.case.branch
    (fun k => endsCondition k) fun k => endsCondition k && k != .keyword .WHEN := by
  have parts : ∀ (s t : State) (a : Expr × Expr), Reads firstReading s Grammar.case.branch a t →
      s.kind = .keyword .WHEN ∧ s.advance.remaining < s.remaining ∧ ∃ m,
        Reads firstReading s.advance (Form.construct .condition) a.1 m ∧ m.kind = .keyword .THEN ∧
          Reads firstReading m.advance (Form.construct .condition) a.2 t := by
    intro s t a reads
    obtain ⟨_, result, m, head, last, rfl⟩ := Reads.seq_iff.mp reads
    obtain ⟨condition, first, rfl⟩ := Reads.map_iff.mp head
    obtain ⟨_, u, word, first⟩ := Reads.seqRight_iff.mp first
    obtain ⟨complete, kind, rfl⟩ := Reads.word_iff.mp word
    obtain ⟨_, v, word, last⟩ := Reads.seqRight_iff.mp last
    obtain ⟨_, then_, rfl⟩ := Reads.word_iff.mp word
    have fewer := complete.remaining_advance (by rw [kind]; rfl)
    exact ⟨kind, by omega, m, first, then_, last⟩
  constructor
  · intro s a t less reads halts
    obtain ⟨kind, fewer, m, first, then_, second⟩ := parts s t a reads
    have fewer' := first.remaining_le
    have fewer'' := m.advance_within.remaining_le
    have run := exact .condition _ a.1 m (by omega) first (by rw [then_]; rfl)
    exact bind_eq_ok.mpr ⟨true, _, eat_of_kind kind, bind_eq_ok.mpr ⟨a.1, m, run, bind_eq_ok.mpr
      ⟨(), _, expect_of_kind then_, bind_eq_ok.mpr ⟨a.2, t,
        exact .condition _ a.2 t (by omega) second halts, rfl⟩⟩⟩⟩
  · intro s a t reads
    obtain ⟨kind, fewer, m, first, _, second⟩ := parts s t a reads
    have fewer' := first.remaining_le
    have fewer'' := second.remaining_le
    have fewer₃ := m.advance_within.remaining_le
    exact ⟨by rw [kind]; rfl, by omega⟩
  · intro t halts
    simp only [Bool.and_eq_true, bne_iff_ne] at halts
    exact ⟨halts.1, bind_eq_ok.mpr ⟨false, t, eat_of_ne halts.2, rfl⟩⟩

omit sound in
/-- A clause that starts with a keyword and holds a condition. -/
theorem clause_exact (k : Keyword) :
    Exact (n + 1) (after? (.keyword k) (i .condition))
      (Form.optional (Form.word k *> Form.construct .condition))
      fun j => endsCondition j && j != .keyword k := by
  intro s o t less reads halts
  simp only [Bool.and_eq_true, bne_iff_ne] at halts
  rcases Reads.optional_iff.mp reads with ⟨a, rfl, present⟩ | ⟨rfl, _, rfl⟩
  · obtain ⟨kind, _, condition⟩ := Reads.mark_strict ⟨rfl, by simp⟩ present
    have fewer := present.1.remaining_advance (by rw [kind]; rfl)
    exact bind_eq_ok.mpr ⟨true, _, eat_of_kind kind, bind_eq_ok.mpr ⟨a, t,
      exact .condition _ a t (by omega) condition halts.1, rfl⟩⟩
  · exact bind_eq_ok.mpr ⟨false, t, eat_of_ne halts.2, rfl⟩

omit sound in
private theorem caseExpr_exact {r : Parser Expr} {k : Nat} (le : k ≤ n)
    (operand : Exact k r Form.row endsRow) :
    Exact (k + 1) (caseExpr i r) Grammar.case fun _ => true := by
  intro s e t less reads _
  simp only [Grammar.case, Reads.seqLeft_iff, Reads.seq_iff, Reads.map_iff, Reads.seqRight_iff,
    Reads.word_iff] at reads
  obtain ⟨_, x, ⟨_, otherwise, v, ⟨_, branches, w, ⟨_, branch, u, ⟨o, ⟨_, _,
    ⟨complete, kind, rfl⟩, first⟩, rfl⟩, one, rfl⟩, more, rfl⟩, last, rfl⟩, _, closes, rfl⟩ := reads
  have fewer := complete.remaining_advance (by rw [kind]; rfl)
  have fewer₁ := first.remaining_le
  have fewer₂ := one.remaining_le
  have fewer₃ := more.remaining_le
  -- a branch is followed by branches, by an `ELSE` or by the `END`
  have halts : (endsCondition v.kind && v.kind != .keyword .WHEN) = true := by
    rcases Reads.optional_iff.mp last with ⟨_, _, present⟩ | ⟨_, _, rfl⟩
    · rw [(Reads.mark_strict ⟨rfl, by simp⟩ present).1]
      rfl
    · rw [closes]
      rfl
  have all : Reads firstReading u (Form.many Grammar.case.branch) (branch :: branches) v :=
    Reads.many_cons_iff.mpr ⟨w, one, more⟩
  have when : u.kind = .keyword .WHEN := by
    obtain ⟨_, _, _, head, _⟩ := Reads.seq_iff.mp one
    obtain ⟨_, head, _⟩ := Reads.map_iff.mp head
    exact (Reads.mark_strict ⟨rfl, by simp⟩ head).1
  have ends := clause_exact exact .ELSE v otherwise x (by omega) last (by rw [closes]; rfl)
  have rest : (do
      let branches ← many (branch? i)
      if branches.isEmpty then unexpected [.keyword .WHEN] else caseEnd i o branches) u =
        .ok (.case o (branch :: branches) otherwise) x.advance :=
    bind_eq_ok.mpr ⟨_, v, (branch?_exact exact).many u _ v (by omega) all halts,
      bind_eq_ok.mpr ⟨otherwise, x, ends, bind_eq_ok.mpr ⟨true, _, eat_of_kind closes, rfl⟩⟩⟩
  refine bind_eq_ok.mpr ⟨(), _, expect_of_kind kind, bind_eq_ok.mpr ⟨_, _, rfl, ?_⟩⟩
  rcases Reads.optional_iff.mp first with ⟨a, rfl, present⟩ | ⟨rfl, _, rfl⟩
  · have starts := row_starts present
    rw [if_neg (by rintro same; simp [same, rowStart] at starts)]
    exact bind_eq_ok.mpr ⟨some a, u, map_of_ok (operand _ a u (by omega) present (by rw [when]; rfl)),
      rest⟩
  · rw [if_pos when]
    exact rest

omit sound in
private theorem signed_exact {k : Kind} {op : UnaryOp} {s t : State} {e : Expr} (single : Reads.Single k)
    (less : s.remaining < n + 1)
    (reads : Reads firstReading s (Expr.unary op <$> (Form.mark k *> Form.construct .signed)) e t)
    (halts : endsPrimary t.kind = true) :
    s.kind = k ∧ (do advance; Expr.unary op <$> i .signed) s = .ok e t := by
  obtain ⟨a, signed, rfl⟩ := Reads.map_iff.mp reads
  obtain ⟨kind, _, operand⟩ := Reads.mark_strict single signed
  have plain := single.1
  simp only [Symbol.isPlain, Bool.and_eq_true, Bool.not_eq_true'] at plain
  have fewer := signed.1.remaining_advance (by rw [kind]; exact plain.2)
  exact ⟨kind, bind_eq_ok.mpr ⟨(), _, rfl,
    map_of_ok (exact .signed _ a t (by omega) operand halts)⟩⟩

omit exact sound in
private theorem literal_exact {r : Parser Expr} {s t : State} {e : Expr}
    (reads : Reads firstReading s Grammar.literal e t) : primary i r s = .ok e t := by
  have looked : token s = .ok s.token s := rfl
  rw [primary, bind_of_ok looked]
  simp only [Grammar.literal, Reads.or_iff, Reads.map_iff, Reads.word_iff] at reads
  rcases reads with ⟨_, number, rfl⟩ | ⟨_, string, rfl⟩ | ⟨_, ⟨_, word, rfl⟩, rfl⟩ |
    ⟨_, ⟨_, word, rfl⟩, rfl⟩ | ⟨_, ⟨_, word, rfl⟩, rfl⟩
  · obtain ⟨_, kind, rfl, rfl⟩ := (Reads.text_iff ⟨rfl, by simp⟩).mp number
    rw [show s.token.kind = .number from kind, show s.token.value = s.token.raw by
      rw [Token.value, show s.token.kind = .number from kind]]
    rfl
  · obtain ⟨_, kind, rfl, rfl⟩ := (Reads.text_iff ⟨rfl, by simp⟩).mp string
    rw [show s.token.kind = .string from kind]
    rfl
  all_goals
    rw [show s.token.kind = _ from word]
    rfl

omit sound in
private theorem call_exact {r : Parser Expr} {s t : State} {e : Expr} (less : s.remaining < n + 1)
    (reads : Reads firstReading s Grammar.call e t) : primary i r s = .ok e t := by
  have looked : token s = .ok s.token s := rfl
  rw [primary, bind_of_ok looked]
  simp only [Grammar.call, Reads.seq_iff, Reads.map_iff, Reads.or_iff] at reads
  obtain ⟨_, args, m, ⟨names, path | ⟨word, function, rfl⟩, rfl⟩, arguments, rfl⟩ := reads
  · rw [show s.token.kind = .identifier from path_starts path]
    exact columnOrCall_call exact (by omega) path arguments
  · obtain ⟨j, kind, isName, complete, rfl, rfl⟩ := Reads.functionWord_iff.mp function
    have fewer := s.advance_within.remaining_le
    have run : (do advance; Expr.call [s.token.raw] <$> Parse.arguments i) s =
        .ok (.call [s.token.raw] args) t :=
      bind_eq_ok.mpr ⟨(), _, rfl, map_of_ok (arguments_exact exact _ args t (by omega) arguments rfl)⟩
    rw [show s.token.kind = .keyword j from kind]
    cases j <;> first | exact run | cases isName

theorem primary_exact {r : Parser Expr} {k : Nat} (le : k ≤ n)
    (operand : Exact k r Form.row endsRow) :
    Exact (k + 1) (primary i r) Grammar.primary endsPrimary := by
  intro s e t less reads halts
  simp only [Grammar.primary, Grammar.parenthesis_eq, Reads.or_iff] at reads
  rcases reads with literal | reads
  · exact literal_exact literal
  have looked : token s = .ok s.token s := rfl
  rcases reads with reads | reads | reads | reads | call | reads
  · obtain ⟨_, kind, rfl, rfl⟩ := Reads.parameter_iff.mp reads
    rw [primary, bind_of_ok looked, show s.token.kind = .question from kind]
    rfl
  · rcases Reads.or_iff.mp reads with plus | minus
    · obtain ⟨kind, run⟩ := signed_exact exact ⟨rfl, by simp⟩ (by omega) plus halts
      rw [primary, bind_of_ok looked, show s.token.kind = .plus from kind]
      exact run
    · obtain ⟨kind, run⟩ := signed_exact exact ⟨rfl, by simp⟩ (by omega) minus halts
      rw [primary, bind_of_ok looked, show s.token.kind = .minus from kind]
      exact run
  · have run := caseExpr_exact exact le operand s e t less reads rfl
    have kind : s.token.kind = .keyword .CASE := by
      simp only [Grammar.case, Reads.seqLeft_iff, Reads.seq_iff, Reads.map_iff, Reads.seqRight_iff,
        Reads.word_iff] at reads
      obtain ⟨_, _, ⟨_, _, _, ⟨_, _, _, ⟨_, _, _, ⟨_, ⟨_, _, word, _⟩, _⟩, _⟩, _⟩, _⟩, _⟩ := reads
      exact word.2.1
    rw [primary, bind_of_ok looked, kind]
    exact run
  · have run : columnOrCall i s = .ok e t := columnOrCall_column reads halts
    rw [primary, bind_of_ok looked]
    rcases column_starts reads with kind | kind <;> (rw [show s.token.kind = _ from kind]; exact run)
  · exact call_exact exact (by omega) call
  · obtain ⟨x, run, rfl⟩ := parenthesized_exact exact sound (conditions_exact exact) rfl (by omega) reads
    rw [primary, bind_of_ok looked, show s.token.kind = .leftParen from (Reads.prefer_iff.mp reads).2.1]
    exact map_of_ok run

private theorem rowWithin_exact (k : Nat) (le : k ≤ n + 1) :
    Exact k (rowWithin i k) Grammar.sum endsRow := by
  induction k with
  | zero =>
      intro s e t less _ _
      omega
  | succ k ih =>
      have operand : Exact k (rowWithin i k) Form.row endsRow := fun s e t less reads =>
        ih (by omega) s e t less (Reads.row_iff.mp reads)
      have primaries := primary_exact exact sound (by omega) operand
      rw [Grammar.sum_eq, Grammar.product_eq, Grammar.power_eq]
      exact ((primaries.chain power?_operators.single power?_ends).chain product?_operators.single product?_ends).chain
        sum?_operators.single sum?_ends

theorem row_exact : Exact (n + 1) (row i) Form.row endsRow := by
  intro s e t less reads halts
  have enough : s.cursor.remaining + 1 ≤ n + 1 := less
  exact rowWithin_exact exact sound _ enough s e t (Nat.lt_succ_self _) (Reads.row_iff.mp reads) halts

end

end SelectSyntax.Parse
