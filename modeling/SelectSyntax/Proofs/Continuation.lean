import SelectSyntax.Proofs.Viability

/-!
Every rule spans the language of its form: what it takes may be followed by whatever may follow the form, and
where it gives up the form can still be completed from the tokens that it has taken.
-/

set_option autoImplicit false
set_option relaxedAutoImplicit false

namespace SelectSyntax.Parse

open Form (language_chain language_construct language_flag language_map language_optional language_or
  language_parameter language_parens language_prefer language_pure language_row language_separated
  language_seq language_seqLeft language_seqRight language_setChain language_text language_word)
open Token (Kind Keyword)
open SyntaxTree (BinaryOp Body Expr JoinKind JoinSide SetOp SetQuantifier Statement TableRef)
open Word (single)

private abbrev prefixes : Language Symbol := (Form.many (Grammar.name <* Form.mark .dot)).language

private abbrev suffixes : Language Symbol := (Form.many (Form.mark .dot *> Grammar.name)).language

private def pathBefore (T U : Language Symbol) : Language Symbol :=
  prefixes * (single .star * T) + single .identifier * (suffixes * U)

private theorem column_language :
    Grammar.column.language = prefixes * single .star + single .identifier * suffixes := by
  simp only [Grammar.column, Grammar.path, language_or, language_map, language_seqLeft, language_separated,
    Form.language_name, Form.language_mark (k := .star) rfl]

private theorem call_language : Grammar.call.language =
    (single .identifier * suffixes + Grammar.functionWord.language) * Grammar.arguments.language := by
  simp only [Grammar.call, Grammar.path, language_seq, language_map, language_or, language_separated,
    Form.language_name]

private theorem point_le (T U : Language Symbol) :
    single .identifier * (single .dot * pathBefore T U) ≤ pathBefore T U := by
  have before := mul_le_mul_left (Form.mul_many_le (Grammar.name <* Form.mark .dot)) (single .star * T)
  have after := mul_le_mul_left (Form.mul_many_le (Form.mark .dot *> Grammar.name)) U
  rw [language_seqLeft, Form.language_mark rfl, Form.language_name] at before
  rw [language_seqRight, Form.language_mark rfl, Form.language_name] at after
  simp only [pathBefore, mul_add, mul_assoc] at before after ⊢
  exact add_le_add before (mul_le_mul_right after _)

private theorem columnPathWithin_viable (n : Nat) (T U : Language Symbol) [Productive U] :
    Viable (pathBefore T U) (columnPathWithin n) fun path => bif path.2 then T else U := by
  have productive : Productive (pathBefore T U) := by
    rw [pathBefore]
    infer_instance
  induction n with
  | zero => exact .unexpected productive _
  | succ n ih =>
      have star : single .star * T ≤ pathBefore T U := by
        have more := mul_le_mul_left (Form.one_le_many (Grammar.name <* Form.mark .dot)) (single .star * T)
        rw [one_mul] at more
        exact le_trans more le_self_add
      have name : single .identifier * (suffixes * U + single .dot * pathBefore T U) ≤ pathBefore T U := by
        rw [mul_add]
        exact fun w mem => mem.elim (fun mem => Or.inr mem) fun mem => point_le T U mem
      refine (Viable.eat rfl star).bind fun starred => ?_
      cases starred with
      | true => exact .pure _ (le_refl T)
      | false =>
          refine (Offers.identifier? _ _ name).bind fun o => ?_
          cases o with
          | none => exact .unexpected productive _
          | some first =>
              refine (Viable.eat rfl le_add_self).bind fun dot => ?_
              cases dot with
              | true => exact ih.bind fun rest => .pure _ (le_refl _)
              | false =>
                  have ends := mul_le_mul_left (Form.one_le_many (Form.mark .dot *> Grammar.name)) U
                  rw [one_mul] at ends
                  exact .pure _ (le_trans ends le_self_add)

private theorem literal_language : Grammar.literal.language =
    single .number + (single .string + (single (.keyword .TRUE) + (single (.keyword .FALSE) +
      single (.keyword .NULL)))) := by
  simp only [Grammar.literal, language_or, language_map, language_word, language_text (k := .number) rfl,
    language_text (k := .string) rfl]

private theorem functionWord_le {k : Keyword} (names : k.isFunctionName = true) :
    single (.keyword k) ≤ Grammar.functionWord.language := by
  rintro _ ⟨text, rfl⟩
  exact ⟨0, text, .symbol rfl (if_pos (Grammar.mem_functionWords.mpr names))⟩

private theorem signed_language : Grammar.signed.language =
    single .plus * (Form.construct .signed).language + single .minus * (Form.construct .signed).language := by
  simp only [Grammar.signed, language_or, language_map, language_seqRight, Form.language_mark (k := .plus) rfl,
    Form.language_mark (k := .minus) rfl]

private theorem primary_language : Grammar.primary.language =
    Grammar.literal.language + (single .question + (Grammar.signed.language + (Grammar.case.language +
      ((Grammar.column.language + Grammar.call.language) +
        single .leftParen * (((Form.construct .query).language + Grammar.conditions.language) *
          single .rightParen))))) := by
  simp only [Grammar.primary, Grammar.parenthesis, language_or, language_parameter, language_prefer, add_assoc]

private abbrev quantified : Language Symbol :=
  single .leftParen * ((Form.construct .query).language * single .rightParen)

private abbrev between : Language Symbol :=
  single (.keyword .BETWEEN) * (Form.row.language * (single (.keyword .AND) * Form.row.language))

private abbrev among : Language Symbol := single (.keyword .IN) * (single .leftParen *
  (((Form.construct .query).language + Grammar.conditions.language) * single .rightParen))

private abbrev like : Language Symbol := single (.keyword .LIKE) *
  (Form.row.language * (single (.keyword .ESCAPE) * Form.row.language + 1))

private abbrev negatable : Language Symbol := between + (among + like)

private abbrev rowEnds : Language Symbol :=
  Grammar.nullEnd.language + ((single (.keyword .NOT) + 1) * negatable + 1)

private theorem predicate_language : Grammar.predicate.language =
    single (.keyword .EXISTS) * quantified + Form.row.language *
      (Grammar.comparison.language * (Form.row.language + Grammar.quantifier.language * quantified) +
        rowEnds) := by
  simp only [Grammar.predicate, Grammar.comparisonEnd, Grammar.betweenEnd, Grammar.inEnd, Grammar.likeEnd,
    language_or, language_seq, language_map, language_seqRight, language_word, language_parens,
    language_prefer, language_optional, language_flag, language_pure, quantified, between, among, like, mul_add,
    mul_assoc, add_assoc]

section
variable {i : Inner} (inside : ∀ e, Spans (i e) (Form.construct e).language)
include inside

private theorem conditions_spans : Spans (conditions i) Grammar.conditions.language :=
  (inside .condition).commaList

private theorem arguments_spans : Spans (arguments i) Grammar.arguments.language := by
  intro T _
  rw [Grammar.arguments, language_parens, language_or, language_pure, mul_assoc, mul_assoc, add_mul, one_mul]
  refine (Spans.expect rfl).andThen fun _ => (Viable.eat (U := T) rfl le_add_self).bind fun none_ => ?_
  cases none_ with
  | true => exact .pure [] (le_refl T)
  | false =>
      have args : Viable (Grammar.conditions.language * (single .rightParen * T)) (do
          let args ← conditions i
          if ← eat .rightParen then pure args else unexpected [.comma, .rightParen])
          fun _ => T := by
        refine (conditions_spans inside).andThen fun args => (Viable.eat rfl (le_refl _)).bind fun closes => ?_
        cases closes with
        | true => exact .pure args (le_refl T)
        | false =>
            have more : Productive (single .rightParen * T) := inferInstance
            exact .unexpected more _
      exact args.wider le_self_add

private theorem columnOrCall_spans :
    Spans (columnOrCall i) (Grammar.column.language + Grammar.call.language) := by
  intro T _
  have path : Viable (pathBefore T (T + Grammar.arguments.language * T)) columnPath fun path =>
      bif path.2 then T else T + Grammar.arguments.language * T :=
    fun s complete => .of_eq rfl (columnPathWithin_viable (s.cursor.remaining + 1) T _ s complete)
  have whole : Viable (pathBefore T (T + Grammar.arguments.language * T)) (columnOrCall i) fun _ => T := by
    refine path.bind fun path => .look fun k => ?_
    cases starred : path.2 with
    | true => exact .pure _ (le_refl T)
    | false =>
        simp only [Bool.not_false, Bool.true_and, cond_false]
        split
        · have args := (arguments_spans inside).andThen fun args =>
            Viable.pure (Q := fun _ => T) (Expr.call path.1 args) (le_refl T)
          exact args.wider le_add_self
        · exact .pure _ le_self_add
  refine whole.wider ?_
  rw [column_language, call_language]
  simp only [pathBefore, mul_add, add_mul, mul_assoc]
  rintro w (starred | column | call)
  · exact Or.inl (Or.inl starred)
  · exact Or.inl (Or.inr column)
  · exact Or.inr (Or.inl call)

private theorem branch?_offers : Offers (branch? i) Grammar.case.branch.language := by
  intro T U _ le
  rw [Grammar.case.branch, language_seq, language_map, language_seqRight, language_seqRight, language_word,
    language_word, mul_assoc, mul_assoc, mul_assoc] at le
  refine (Viable.eat rfl le).bind fun when_ => ?_
  cases when_ with
  | true =>
      exact (inside .condition).andThen fun _ => (Spans.expect rfl).andThen fun _ =>
        (inside .condition).andThen fun _ => .pure _ (le_refl U)
  | false => exact .pure none (le_refl T)

private theorem clause_offers (k : Keyword) : Offers (after? (.keyword k) (i .condition))
    (Form.word k *> Form.construct .condition).language := by
  rw [language_seqRight, language_word]
  exact .after? rfl (inside .condition)

/-- What may be read after the branches of a `CASE`, in front of what may follow it. -/
private abbrev afterBranches (T : Language Symbol) : Language Symbol :=
  (Form.optional (Form.word .ELSE *> Form.construct .condition)).language * (single (.keyword .END) * T)

private theorem caseEnd_viable {T : Language Symbol} [Productive T] (operand : Option Expr)
    (branches : List (Expr × Expr)) :
    Viable (afterBranches T) (caseEnd i operand branches) fun _ => T := by
  rw [afterBranches, language_optional]
  refine (clause_offers inside .ELSE).optional.andThen fun otherwise =>
    (Viable.eat rfl (le_refl _)).bind fun ends => ?_
  cases ends with
  | true => exact .pure _ (le_refl T)
  | false =>
      have more : Productive (single (.keyword .END) * T) := inferInstance
      simp only [Bool.false_eq_true, if_false]
      split
      · exact .unexpected more _
      · exact .unexpected more _

private theorem branches_viable {T : Language Symbol} [Productive T] (operand : Option Expr) :
    Viable (Grammar.case.branch.language * ((Form.many Grammar.case.branch).language * afterBranches T))
      (many (branch? i) >>= fun branches =>
        if branches.isEmpty then unexpected [.keyword .WHEN] else caseEnd i operand branches)
      fun _ => T := by
  have more : Grammar.case.branch.language *
      ((Form.many Grammar.case.branch).language * afterBranches T) ≤
        (Form.many Grammar.case.branch).language * afterBranches T := by
    rw [← mul_assoc]
    exact mul_le_mul_left (Form.mul_many_le _) _
  have item := branch?_offers inside _ _ more
  have first := branch?_offers inside _ _ (le_refl (Grammar.case.branch.language *
    ((Form.many Grammar.case.branch).language * afterBranches T)))
  refine (Viable.many first (item.weaken (le_refl _) fun o => ?_)).bind fun branches => ?_
  · cases o <;> exact le_refl _
  · have none_ : afterBranches T ≤ (Form.many Grammar.case.branch).language * afterBranches T := by
      have le := mul_le_mul_left (Form.one_le_many Grammar.case.branch) (afterBranches T)
      rwa [one_mul] at le
    cases branches with
    | nil =>
        have start : Productive (Grammar.case.branch.language *
          ((Form.many Grammar.case.branch).language * afterBranches T)) := inferInstance
        exact .unexpected start _
    | cons first rest => exact (caseEnd_viable inside operand (first :: rest)).wider none_

private theorem caseExpr_spans {r : Parser Expr} (row : Spans r Form.row.language) :
    Spans (caseExpr i r) Grammar.case.language := by
  intro T _
  simp only [Grammar.case, language_seqLeft, language_seq, language_map, language_seqRight (Form.word .CASE),
    language_word, mul_assoc]
  rw [language_optional Form.row, add_mul, one_mul]
  refine (Spans.expect rfl).andThen fun _ => .look fun k => ?_
  simp only []
  split
  · exact (Viable.pure none le_add_self).bind (branches_viable inside (T := T))
  · exact (((row _).map (f := some)).wider le_self_add).bind (branches_viable inside (T := T))

private theorem signed_viable {T : Language Symbol} [Productive T] {s : State} {k : Kind} (f : Expr → Expr)
    (complete : s.Complete) (kind : s.kind = k) (live : k.isTerminal = false)
    (le : single k * (Form.construct .signed).language ≤ Grammar.primary.language) :
    ViableAt s (Grammar.primary.language * T) (advance >>= fun _ => f <$> i .signed) fun _ => T := by
  refine (ViableAt.advance complete kind live ?_).bind complete fun _ => (inside .signed).map f
  rw [← mul_assoc]
  exact mul_le_mul_left le T

omit inside in
private theorem literal_viable {T : Language Symbol} {s : State} {k : Kind} (e : Expr)
    (complete : s.Complete) (kind : s.kind = k) (live : k.isTerminal = false)
    (le : single k ≤ Grammar.literal.language) :
    ViableAt s (Grammar.primary.language * T) (advance >>= fun _ => pure e) fun _ => T := by
  refine (ViableAt.advance complete kind live (U := T) ?_).bind complete fun _ => .pure e (le_refl T)
  rw [primary_language]
  exact mul_le_mul_left (le_trans le le_self_add) T

private theorem primary_spans {r : Parser Expr} (row : Spans r Form.row.language) :
    Spans (primary i r) Grammar.primary.language := by
  intro T _ s complete
  have productive : Productive (Grammar.primary.language * T) := inferInstance
  refine ViableAt.token ?_
  split
  · rename_i kind
    refine literal_viable _ complete kind rfl ?_
    rw [literal_language]
    exact fun _ mem => Or.inl mem
  · rename_i kind
    refine literal_viable _ complete kind rfl ?_
    rw [literal_language]
    exact fun _ mem => Or.inr (Or.inl mem)
  · rename_i kind
    refine literal_viable _ complete kind rfl ?_
    rw [literal_language]
    exact fun _ mem => Or.inr (Or.inr (Or.inl mem))
  · rename_i kind
    refine literal_viable _ complete kind rfl ?_
    rw [literal_language]
    exact fun _ mem => Or.inr (Or.inr (Or.inr (Or.inl mem)))
  · rename_i kind
    refine literal_viable _ complete kind rfl ?_
    rw [literal_language]
    exact fun _ mem => Or.inr (Or.inr (Or.inr (Or.inr mem)))
  · rename_i kind
    refine .map (.parameter complete kind (mul_le_mul_left ?_ T))
    rw [primary_language]
    exact fun _ mem => Or.inr (Or.inl mem)
  · rename_i kind
    refine signed_viable inside _ complete kind rfl ?_
    rw [primary_language, signed_language]
    exact fun _ mem => Or.inr (Or.inr (Or.inl (Or.inl mem)))
  · rename_i kind
    refine signed_viable inside _ complete kind rfl ?_
    rw [primary_language, signed_language]
    exact fun _ mem => Or.inr (Or.inr (Or.inl (Or.inr mem)))
  · refine (caseExpr_spans inside row).wider ?_ T s complete
    rw [primary_language]
    exact fun _ mem => Or.inr (Or.inr (Or.inr (Or.inl mem)))
  · refine (columnOrCall_spans inside).wider ?_ T s complete
    rw [primary_language]
    exact fun _ mem => Or.inr (Or.inr (Or.inr (Or.inr (Or.inl mem))))
  · refine (columnOrCall_spans inside).wider ?_ T s complete
    rw [primary_language]
    exact fun _ mem => Or.inr (Or.inr (Or.inr (Or.inr (Or.inl mem))))
  · refine (((inside .query).parenthesized (conditions_spans inside)).wider ?_ T).map s complete
    rw [primary_language]
    exact fun _ mem => Or.inr (Or.inr (Or.inr (Or.inr (Or.inr mem))))
  · rename_i k _ _ _ _ kind
    split
    · rename_i names
      have call : single (.keyword k) * Grammar.arguments.language ≤ Grammar.primary.language := by
        rw [primary_language, call_language, add_mul]
        exact fun _ mem => Or.inr (Or.inr (Or.inr (Or.inr (Or.inl (Or.inr (Or.inr
          (mul_le_mul_left (functionWord_le names) _ mem)))))))
      have le := mul_le_mul_left call T
      rw [mul_assoc] at le
      exact (ViableAt.advance complete kind rfl le).bind complete fun _ => (arguments_spans inside).map _
    · exact Viable.unexpected productive _ s complete
  · exact Viable.unexpected productive _ s complete

private theorem rowWithin_spans (n : Nat) : Spans (rowWithin i n) Form.row.language := by
  induction n with
  | zero => exact fun T _ => .unexpected (inferInstance : Productive (Form.row.language * T)) _
  | succ n ih =>
      rw [language_row, Grammar.sum_eq, Grammar.product_eq, Grammar.power_eq]
      exact .chain sum?_operators.single (.chain product?_operators.single (.chain power?_operators.single
        (primary_spans inside ih)))

omit inside in
private theorem row_run (s : State) : row i s = rowWithin i (s.cursor.remaining + 1) s := by
  rw [row]

private theorem row_spans : Spans (row i) Form.row.language := by
  intro T _ s complete
  exact (rowWithin_spans inside (s.cursor.remaining + 1) T s complete).of_eq (row_run s)

private theorem comparisonEnd_spans (left : Expr) (op : BinaryOp) : Spans (comparisonEnd i left op)
    (Form.row.language + Grammar.quantifier.language * quantified) := by
  intro T _
  rw [Grammar.quantifier_eq, add_mul, mul_assoc]
  refine (Offers.take? quantifier?_operators.single _ _ le_add_self).bind fun quantifier => ?_
  cases quantifier with
  | some q => exact ((inside .query).enclosed T).map
  | none => exact ((row_spans inside T).map).wider le_self_add

private theorem betweenEnd_spans (negated : Bool) (operand : Expr) :
    Spans (betweenEnd i negated operand) between := by
  intro T _
  simp only [between, mul_assoc]
  exact (Spans.expect rfl).andThen fun _ => (row_spans inside).andThen fun _ =>
    (Spans.expect rfl).andThen fun _ => (row_spans inside).andThen fun _ => .pure _ (le_refl T)

private theorem inEnd_spans (negated : Bool) (operand : Expr) :
    Spans (inEnd i negated operand) among := by
  intro T _
  rw [among, mul_assoc]
  refine (Spans.expect rfl).andThen fun _ =>
    ((inside .query).parenthesized (conditions_spans inside)).andThen fun x => ?_
  cases x with
  | inl query => exact .pure _ (le_refl T)
  | inr values => exact .pure _ (le_refl T)

private theorem likeEnd_spans (negated : Bool) (operand : Expr) :
    Spans (likeEnd i negated operand) like := by
  intro T _
  have escape : Offers (after? (.keyword .ESCAPE) (row i)) (single (.keyword .ESCAPE) * Form.row.language) :=
    .after? rfl (row_spans inside)
  rw [like, mul_assoc, mul_assoc]
  exact (Spans.expect rfl).andThen fun _ => (row_spans inside).andThen fun _ =>
    escape.optional.andThen fun _ => .pure _ (le_refl T)

private theorem negatedEnd_spans (operand : Expr) : Spans (negatedEnd i operand) negatable := by
  intro T _
  refine .look fun k => ?_
  split
  · exact (betweenEnd_spans inside true operand).wider (fun _ => Or.inl) T
  · exact (inEnd_spans inside true operand).wider (fun _ mem => Or.inr (Or.inl mem)) T
  · exact (likeEnd_spans inside true operand).wider (fun _ mem => Or.inr (Or.inr mem)) T
  · exact .unexpected (inferInstance : Productive (negatable * T)) _

omit inside in
private theorem isNull?_offers : Offers isNull? Grammar.nullEnd.language := by
  intro T U _ le s complete
  have language : Grammar.nullEnd.language = single (.keyword .IS) * (single (.keyword .NOT) + 1) *
      single (.keyword .NULL) := by
    simp only [Grammar.nullEnd, language_seqLeft, language_map, language_seqRight, language_word, language_flag]
  rw [language] at le
  unfold ViableAt
  cases run : isNull? s with
  | error f t => exact absurd run isNull?_ne_error
  | ok o t =>
      rcases isNull?_eq_ok run with ⟨negated, m, rfl, is, flag, null, rfl⟩ | ⟨rfl, rfl⟩
      · have first := Cursor.Spells.advance complete (by rw [is]; rfl)
        have ahead := s.advance_within.complete complete
        rcases flag with ⟨rfl, not, rfl⟩ | ⟨rfl, rfl⟩
        · have second := Cursor.Spells.advance ahead (by rw [not]; rfl)
          have third := Cursor.Spells.advance (s.advance.advance_within.complete ahead) (by rw [null]; rfl)
          refine ⟨_, (first.trans second).trans third, fun v mem => le (Language.append_mem_mul ?_ mem)⟩
          exact Language.append_mem_mul (Language.append_mem_mul (mem_single is) (Or.inl (mem_single not)))
            (mem_single null)
        · have second := Cursor.Spells.advance ahead (by rw [null]; rfl)
          refine ⟨_, (first.trans (.refl _)).trans second, fun v mem => le (Language.append_mem_mul ?_ mem)⟩
          exact Language.append_mem_mul (Language.append_mem_mul (mem_single is) (Or.inr rfl))
            (mem_single null)
      · exact ⟨[], .refl _, le_refl _⟩

private theorem predicateEnd_spans (operand : Expr) : Spans (predicateEnd i operand) rowEnds := by
  intro T _
  have null : Grammar.nullEnd.language * T ≤ rowEnds * T := mul_le_mul_left le_self_add T
  have plain : negatable ≤ rowEnds := by
    simp only [rowEnds, add_mul, one_mul]
    exact fun _ mem => Or.inr (Or.inl (Or.inr mem))
  have negated : single (.keyword .NOT) * (negatable * T) ≤ rowEnds * T := by
    rw [← mul_assoc]
    refine mul_le_mul_left ?_ T
    simp only [rowEnds, add_mul, one_mul]
    exact fun _ mem => Or.inr (Or.inl (Or.inl mem))
  have alone : T ≤ rowEnds * T := by
    have le : (1 : Language Symbol) ≤ rowEnds := fun _ mem => Or.inr (Or.inr mem)
    simpa only [one_mul] using mul_le_mul_left le T
  refine (isNull?_offers _ T null).bind fun o => ?_
  cases o with
  | some negated => exact .pure _ (le_refl T)
  | none =>
      refine fun s complete => .kind ?_
      split
      · rename_i kind
        exact (ViableAt.advance complete kind rfl negated).bind complete fun _ =>
          negatedEnd_spans inside operand T
      · exact ((betweenEnd_spans inside false operand).wider (fun _ mem => plain (Or.inl mem)) T) s complete
      · exact ((inEnd_spans inside false operand).wider (fun _ mem => plain (Or.inr (Or.inl mem))) T) s complete
      · exact ((likeEnd_spans inside false operand).wider (fun _ mem => plain (Or.inr (Or.inr mem))) T) s complete
      · exact Viable.pure operand alone s complete

private theorem predicate_spans : Spans (predicate i) Grammar.predicate.language := by
  intro T _
  have productive : Productive (Grammar.predicate.language * T) := inferInstance
  rw [predicate_language, add_mul, mul_assoc, mul_assoc Form.row.language] at productive ⊢
  refine (Viable.eat rfl le_self_add).bind fun exists_ => ?_
  cases exists_ with
  | true => exact ((inside .query).enclosed T).map
  | false =>
      refine .look fun k => ?_
      split
      · refine ((row_spans inside _).bind fun left => ?_).wider le_add_self
        rw [Grammar.comparison_eq, add_mul, mul_assoc]
        refine (Offers.take? comparison?_operators.single _ _ le_self_add).bind fun comparison => ?_
        cases comparison with
        | some op => exact comparisonEnd_spans inside left op T
        | none => exact (predicateEnd_spans inside left T).wider le_add_self
      · exact .unexpected productive _

private theorem truthTest_spans : Spans (truthTest i) Grammar.truthTest.language := by
  intro T _
  simp only [Grammar.truthTest, language_seq, language_map, language_or, language_pure, language_seqRight,
    language_word, language_flag, mul_assoc]
  have offers : Offers (take? truthValue?) Grammar.truthValue.language :=
    Grammar.truthValue_eq ▸ Offers.take? truthValue?_single
  rw [add_mul, one_mul, mul_assoc, mul_assoc]
  refine (predicate_spans inside).andThen fun operand => (Viable.eat rfl le_self_add).bind fun is => ?_
  cases is with
  | false => exact .pure operand le_add_self
  | true =>
      refine (Spans.eat rfl).andThen fun negated =>
        (offers _ T (le_refl _)).bind fun value => ?_
      cases value with
      | some value => exact .pure _ (le_refl T)
      | none =>
          have more : Productive (Grammar.truthValue.language * T) := inferInstance
          exact .unexpected more _

private theorem negation_spans : Spans (negation i) Grammar.negation.language := by
  intro T _
  rw [Grammar.negation, language_or, language_map, language_seqRight, language_word, add_mul, mul_assoc]
  refine (Viable.eat rfl le_self_add).bind fun not => ?_
  cases not with
  | true => exact (inside .negated).map _
  | false => exact (truthTest_spans inside T).wider le_add_self

private theorem condition_spans : Spans (condition i) Grammar.condition.language := by
  rw [Grammar.condition_eq, Grammar.conjunction_eq]
  exact .chain or?_operators.single (.chain and?_operators.single (negation_spans inside))

section
omit inside

/-- A side that no word stands for takes nothing, also in front of its `JOIN`. -/
private theorem joinSide?_offers : Offers joinSide? Grammar.joinSide.language := by
  intro T U _ le s complete
  simp only [Grammar.joinSide, language_or, language_map, language_word, language_seqRight, language_flag,
    language_pure] at le
  have side {A : Language Symbol} (less : A ≤ single (.keyword .INNER) + (single (.keyword .LEFT) *
      (single (.keyword .OUTER) + 1) + (single (.keyword .RIGHT) * (single (.keyword .OUTER) + 1) +
      (single (.keyword .FULL) * (single (.keyword .OUTER) + 1) + 1)))) : A * U ≤ T :=
    le_trans (mul_le_mul_left less U) le
  have outer {k : Keyword} (f : Bool → JoinSide) (kind : s.kind = .keyword k)
      (le : single (.keyword k) * (single (.keyword .OUTER) + 1) * U ≤ T) :
      ViableAt s T (do
        advance
        let outer ← eat (.keyword .OUTER)
        pure (some (f outer))) fun o : Option JoinSide => bif o.isSome then U else T := by
    rw [mul_assoc] at le
    exact (ViableAt.advance complete kind rfl le).bind complete fun _ =>
      (Spans.eat rfl).andThen fun _ => .pure _ (le_refl U)
  refine .kind ?_
  split
  · have plain := side (A := 1) fun _ mem => Or.inr (Or.inr (Or.inr (Or.inr mem)))
    rw [one_mul] at plain
    exact Viable.pure _ plain s complete
  · rename_i kind
    have inner := side (A := single (.keyword .INNER)) fun _ mem => Or.inl mem
    exact (ViableAt.advance complete kind rfl inner).bind complete fun _ => .pure _ (le_refl U)
  · rename_i kind
    exact outer .left kind (side fun _ mem => Or.inr (Or.inl mem))
  · rename_i kind
    exact outer .right kind (side fun _ mem => Or.inr (Or.inr (Or.inl mem)))
  · rename_i kind
    exact outer .full kind (side fun _ mem => Or.inr (Or.inr (Or.inr (Or.inl mem))))
  · exact Viable.pure none (le_refl T) s complete

/-- What may follow the words of a join depends on whether it takes a condition. -/
private theorem joinKind?_viable {T U V : Language Symbol} [Productive U] [Productive V]
    (conditioned : Grammar.conditionedJoin.language * U ≤ T) (plain : Grammar.plainJoin.language * V ≤ T) :
    Viable T joinKind? fun o => o.elim T fun kind => bif kind.requiresCondition then U else V := by
  simp only [Grammar.conditionedJoin, Grammar.plainJoin, language_or, language_seqLeft, language_seqRight,
    language_map, language_word, add_mul, mul_assoc] at conditioned plain
  refine (Viable.eat rfl (le_trans le_self_add plain)).bind fun cross => ?_
  cases cross with
  | true => exact (Spans.expect rfl).andThen fun _ => .pure _ (le_refl V)
  | false =>
      refine (Viable.eat rfl (le_trans le_add_self plain)).bind fun natural => ?_
      cases natural with
      | true =>
          refine (joinSide?_offers _ _ (le_refl _)).bind fun side => ?_
          cases side with
          | none =>
              have more : Productive (Grammar.joinSide.language * (single (.keyword .JOIN) * V)) := inferInstance
              exact .unexpected more _
          | some side =>
              refine (Viable.eat rfl (le_refl _)).bind fun join => ?_
              cases join with
              | true => exact .pure _ (le_refl V)
              | false =>
                  have more : Productive (single (.keyword .JOIN) * V) := inferInstance
                  exact .unexpected more _
      | false =>
          refine (joinSide?_offers _ _ conditioned).bind fun side => ?_
          cases side with
          | none => exact .pure none (le_refl T)
          | some side =>
              refine (Viable.eat rfl (le_refl _)).bind fun join => ?_
              cases join with
              | true => exact .pure _ (le_refl U)
              | false =>
                  have more : Productive (single (.keyword .JOIN) * U) := inferInstance
                  exact .unexpected more _

end

omit inside in
private theorem tablePrimary_language : Grammar.tablePrimary.language =
    (Form.separated .dot Grammar.name).language * (Grammar.nameAfterAs.language + 1) +
      (single .leftParen * ((Form.construct .query).language * (single .rightParen *
        (Grammar.nameAfterAs.language * Grammar.columns.language))) +
      single .leftParen * ((Form.construct .table).language * single .rightParen)) := by
  simp only [Grammar.tablePrimary, Grammar.path, language_or, language_seq, language_map, language_optional,
    language_parens, mul_assoc]

private theorem tablePrimary_spans : Spans (tablePrimary i) Grammar.tablePrimary.language := by
  intro T _
  have productive : Productive (Grammar.tablePrimary.language * T) := inferInstance
  refine .look fun k => ?_
  split
  · have relation : Spans (do
        let path ← separated .dot identifier
        let aliasName ← optionalAlias
        pure (TableRef.relation path aliasName))
        ((Form.separated .dot Grammar.name).language * (Grammar.nameAfterAs.language + 1)) := by
      intro T _
      rw [mul_assoc]
      exact (Spans.identifier.separated rfl).andThen fun _ =>
        Offers.optionalAlias.optional.andThen fun _ => .pure _ (le_refl T)
    refine relation.wider ?_ T
    rw [tablePrimary_language]
    exact le_self_add
  · have query : single .leftParen * ((Form.construct .query).language * (single .rightParen *
        (Grammar.nameAfterAs.language * (Grammar.columns.language * T)))) ≤
          Grammar.tablePrimary.language * T := by
      simp only [tablePrimary_language, add_mul, mul_assoc]
      exact fun _ mem => Or.inr (Or.inl mem)
    have table : single .leftParen * ((Form.construct .table).language * (single .rightParen * T)) ≤
        Grammar.tablePrimary.language * T := by
      simp only [tablePrimary_language, add_mul, mul_assoc]
      exact fun _ mem => Or.inr (Or.inr mem)
    refine (Viable.parenthesized (inside .query) (inside .table) query table).bind fun x => ?_
    · cases x with
      | inl query =>
          exact Spans.requiredAlias.andThen fun _ => Spans.optionalColumns.andThen fun _ => .pure _ (le_refl T)
      | inr table => exact .pure table (le_refl T)
  · exact .unexpected productive _

private theorem joinCondition_viable {T : Language Symbol} [Productive T] (kind : JoinKind) :
    Viable (bif kind.requiresCondition then single (.keyword .ON) * ((Form.construct .condition).language * T)
      else T) (joinCondition i kind) fun _ => T := by
  unfold joinCondition
  cases kind.requiresCondition with
  | true => exact (Spans.expect rfl).andThen fun _ => (inside .condition).map some
  | false =>
      refine .look fun k => ?_
      split
      · exact Viable.fail (T := T) _
      · exact .pure none (le_refl T)

private theorem join?_offers : Offers (join? i) Grammar.joinEnd.language := by
  intro T U _ le
  simp only [Grammar.joinEnd, language_or, language_seq, language_map, language_seqRight, language_word,
    add_mul, mul_assoc] at le
  refine (joinKind?_viable (le_trans le_self_add le) (le_trans le_add_self le)).bind fun kind => ?_
  cases kind with
  | none => exact .pure none (le_refl T)
  | some kind =>
      have primary : Viable (bif kind.requiresCondition then Grammar.tablePrimary.language *
          (single (.keyword .ON) * ((Form.construct .condition).language * U)) else
          Grammar.tablePrimary.language * U) (tablePrimary i)
          fun _ => bif kind.requiresCondition then
            single (.keyword .ON) * ((Form.construct .condition).language * U) else U := by
        cases kind.requiresCondition with
        | true => exact tablePrimary_spans inside _
        | false => exact tablePrimary_spans inside U
      exact primary.bind fun right => (joinCondition_viable inside kind).bind fun on => .pure _ (le_refl U)

private theorem table_spans : Spans (table i) Grammar.table.language := by
  intro T _
  rw [Grammar.table, language_seq, language_map, mul_assoc]
  exact (tablePrimary_spans inside).andThen fun _ => (join?_offers inside).many.andThen fun _ =>
    .pure _ (le_refl T)

section
omit inside

private theorem setQuantifier_spans : Spans setQuantifier Grammar.setQuantifier.language := by
  intro T _
  rw [Grammar.setQuantifier_eq, language_or, language_pure]
  exact (Offers.take? setQuantifier?_operators.single).optional.andThen fun _ => .pure _ (le_refl T)

private theorem setChain_spans {operator : Kind → Option SetOp} {p : Parser Body} {F : Form Body}
    [Productive F.language] (plain : ∀ k op, operator k = some op → Reads.Single k)
    (h : Spans p F.language) : Spans (setChain operator p) (Grammar.setChain operator F).language := by
  have item : Offers (setTail? operator p) ((fun op quantifier right => (op, quantifier, right)) <$>
      Form.oneOf operator <*> Grammar.setQuantifier <*> F).language := by
    intro T U _ le
    rw [language_seq, language_seq, language_map, mul_assoc, mul_assoc] at le
    refine (Offers.take? plain T _ le).bind fun op => ?_
    cases op with
    | some op => exact setQuantifier_spans.andThen fun _ => h.andThen fun _ => .pure _ (le_refl U)
    | none => exact .pure none (le_refl T)
  intro T _
  rw [language_setChain, mul_assoc]
  exact h.andThen fun _ => item.many.andThen fun _ => .pure _ (le_refl T)

end

private theorem tables_spans : Spans (tables i) Grammar.tables.language := by
  intro T _
  rw [Grammar.tables, language_or, language_pure, language_seqRight, language_word, add_mul, one_mul, mul_assoc]
  refine (Viable.eat rfl le_self_add).bind fun from_ => ?_
  cases from_ with
  | true => exact (inside .table).commaList T
  | false => exact .pure [] le_add_self

private theorem grouping?_offers : Offers (grouping? i) Grammar.grouping.language := by
  intro T U _ le
  simp only [Grammar.grouping, language_seq, language_map, language_seqRight, language_word, mul_assoc] at le
  refine (Viable.eat rfl le).bind fun group => ?_
  cases group with
  | true =>
      exact (Spans.expect rfl).andThen fun _ => setQuantifier_spans.andThen fun _ =>
        (row_spans inside).commaList.andThen fun _ => .pure _ (le_refl U)
  | false => exact .pure none (le_refl T)

private theorem projection_spans : Spans (projection i) Grammar.projection.language := by
  intro T _
  rw [Grammar.projection, language_seq, language_map, language_optional, mul_assoc]
  exact (row_spans inside).andThen fun _ => Offers.optionalAlias.optional.andThen fun _ =>
    .pure _ (le_refl T)

private theorem selectBlock_spans : Spans (selectBlock i) Grammar.selectBlock.language := by
  intro T _
  simp only [Grammar.selectBlock, language_seq, language_map, language_seqRight, language_word,
    language_optional, mul_assoc]
  exact (Spans.expect rfl).andThen fun _ => setQuantifier_spans.andThen fun _ =>
    (projection_spans inside).commaList.andThen fun _ => (tables_spans inside).andThen fun _ =>
    (Offers.after? rfl (inside .condition)).optional.andThen fun _ =>
    (grouping?_offers inside).optional.andThen fun _ =>
    (Offers.after? rfl (inside .condition)).optional.andThen fun _ => .pure _ (le_refl T)

private theorem bodyPrimary_spans : Spans (bodyPrimary i) Grammar.bodyPrimary.language := by
  intro T _
  have productive : Productive (Grammar.bodyPrimary.language * T) := inferInstance
  rw [Grammar.bodyPrimary, language_or, language_map, language_parens] at productive ⊢
  refine .look fun k => ?_
  split
  · exact ((selectBlock_spans inside).wider le_self_add T).map
  · exact (inside .body).enclosed.wider le_add_self T
  · exact .unexpected productive _

private theorem body_spans : Spans (body i) Grammar.body.language := by
  rw [Grammar.body_eq, Grammar.term_eq]
  exact setChain_spans unionOrExcept?_operators.single
    (setChain_spans intersect?_operators.single (bodyPrimary_spans inside))

private theorem namedQuery_spans : Spans (namedQuery i) Grammar.namedQuery.language := by
  intro T _
  simp only [Grammar.namedQuery, language_seq, language_map, language_seqRight, language_word,
    language_parens, mul_assoc]
  refine Spans.identifier.andThen fun name => Spans.optionalColumns.andThen fun columns =>
    (Viable.eat rfl (le_refl _)).bind fun as => ?_
  cases as with
  | true =>
      have more := (inside .query).enclosed T
      rw [mul_assoc, mul_assoc] at more
      exact more.bind fun _ => .pure _ (le_refl T)
  | false =>
      have more : Productive (single (.keyword .AS) * (single .leftParen * ((Form.construct .query).language *
        (single .rightParen * T)))) := inferInstance
      simp only [Bool.false_eq_true, if_false]
      split
      · exact .unexpected more _
      · exact .unexpected more _

private theorem withClause?_offers : Offers (withClause? i) Grammar.withClause.language := by
  intro T U _ le
  simp only [Grammar.withClause, language_seq, language_map, language_seqRight, language_word, language_flag,
    mul_assoc] at le
  refine (Viable.eat rfl le).bind fun with_ => ?_
  cases with_ with
  | true =>
      exact (Spans.eat rfl).andThen fun _ => (namedQuery_spans inside).commaList.andThen fun _ =>
        .pure _ (le_refl U)
  | false => exact .pure none (le_refl T)

private theorem orderItem_spans : Spans (orderItem i) Grammar.orderItem.language := by
  intro T _
  rw [Grammar.orderItem, Grammar.direction_eq, language_seq, language_map, language_or, language_pure, mul_assoc]
  exact (row_spans inside).andThen fun _ => (Offers.take? direction?_operators.single).optional.andThen fun _ =>
    .pure _ (le_refl T)

private theorem orderBy_spans : Spans (orderBy i) Grammar.orderBy.language := by
  intro T _
  simp only [Grammar.orderBy, language_or, language_pure, language_seqRight, language_word, add_mul, one_mul,
    mul_assoc]
  refine (Viable.eat rfl le_self_add).bind fun order => ?_
  cases order with
  | true => exact (Spans.expect rfl).andThen fun _ => (orderItem_spans inside).commaList T
  | false => exact .pure [] le_add_self

private theorem query_spans : Spans (query i) Grammar.query.language := by
  intro T _
  rw [Grammar.query, language_seq, language_seq, language_map, language_optional, mul_assoc, mul_assoc]
  exact (withClause?_offers inside).optional.andThen fun _ => (body_spans inside).andThen fun _ =>
    (orderBy_spans inside).andThen fun _ => .pure _ (le_refl T)

private theorem rule_spans (e : Entry) : Spans (rule i e) (Form.construct e).language := by
  rw [language_construct]
  cases e with
  | query => exact query_spans inside
  | body => exact body_spans inside
  | condition => exact condition_spans inside
  | negated => exact negation_spans inside
  | signed => exact primary_spans inside (row_spans inside)
  | table => exact table_spans inside

end

theorem levelled_spans (limit levels : Nat) (e : Entry) :
    Spans (levelled limit levels e) (Form.construct e).language := by
  induction levels generalizing e with
  | zero => exact fun T _ => .fail _
  | succ levels ih => exact rule_spans ih e

end SelectSyntax.Parse
