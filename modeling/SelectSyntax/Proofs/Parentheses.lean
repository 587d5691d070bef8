import Mathlib.Logic.Function.Iterate
import SelectSyntax.Proofs.Ambiguity
import SelectSyntax.Proofs.RoundTrip
import SelectSyntax.Proofs.WholeTexts

/-!
Redundant parentheses. A search condition, a query without anything but a body, and a table reference are read
in parentheses as they are read without them: the parentheses leave no node, and no parameter gets another
number. The phrase in the parentheses may be a query as well as a condition; it is a subquery either way then.
-/

set_option autoImplicit false
set_option relaxedAutoImplicit false

namespace SelectSyntax

open Token (Kind Keyword)
open SyntaxTree

def Word.enclosed (w : Word) : Word := .mark .leftParen :: (w ++ [.mark .rightParen])

namespace Grammar.Derives

variable {allows : Allows} {n : Nat} {w : Word}

theorem condition_of_primary {e : Expr} (h : Derives allows primary n w e) :
    Derives allows (Form.construct .condition) n w e := by
  have row : Derives allows Form.row n w e := row_iff.mpr (fold_single (fold_single (fold_single h)))
  have predicate : Derives allows predicate n w e := by
    refine or_iff.mpr (Or.inr (seq_iff.mpr ⟨w, [], _, id, (List.append_nil w).symm,
      map_iff.mpr ⟨e, row, rfl⟩, ?_, rfl⟩))
    simp only [or_iff, pure_iff, true_and, or_true]
  have negation : Derives allows negation n w e := by
    refine or_iff.mpr (Or.inr (seq_iff.mpr ⟨w, [], _, id, (List.append_nil w).symm,
      map_iff.mpr ⟨e, predicate, rfl⟩, ?_, rfl⟩))
    exact or_iff.mpr (Or.inr (pure_iff.mpr ⟨rfl, rfl⟩))
  exact construct_iff.mpr (fold_single (fold_single negation))

theorem body_enclosed {b : Body} (h : Derives allows (Form.construct .body) n w b) :
    Derives allows (Form.construct .body) n w.enclosed b := by
  have inside : Derives allows bodyPrimary n w.enclosed b :=
    or_iff.mpr (Or.inr (parens_iff.mpr ⟨_, _, w, rfl, h⟩))
  have term : Derives allows term n w.enclosed b := fold_single inside
  exact construct_iff.mpr (fold_single term)

theorem query_enclosed {b : Body}
    (h : Derives allows (Form.construct .query) n w ⟨Option.none, b, []⟩) :
    Derives allows (Form.construct .query) n w.enclosed ⟨Option.none, b, []⟩ :=
  query_of_body (body_enclosed (body_of_query h))

theorem table_enclosed {t : TableRef} (h : Derives allows (Form.construct .table) n w t) :
    Derives allows (Form.construct .table) n w.enclosed t := by
  have inside : Derives allows tablePrimary n w.enclosed t :=
    or_iff.mpr (Or.inr (or_iff.mpr (Or.inr (parens_iff.mpr ⟨_, _, w, rfl, h⟩))))
  exact construct_iff.mpr (fold_single inside)

/-- A condition that is a subquery without `WITH` and `ORDER BY` is written as that query is. -/
theorem query_of_subquery {b : Body}
    (h : Derives firstReading conditions n w [.subquery ⟨Option.none, b, []⟩]) :
    Derives firstReading (Form.construct .query) n w ⟨Option.none, b, []⟩ := by
  obtain ⟨opening, closing, v, rfl, inside⟩ := prefer_iff.mp h.subquery_parenthesis
  rcases inside with ⟨q, query, same⟩ | ⟨es, allowed, others, same⟩
  · cases same
    refine query_of_body (construct_iff.mpr ?_)
    have inside : Derives firstReading bodyPrimary n _ b :=
      or_iff.mpr (Or.inr (parens_iff.mpr ⟨opening, closing, v, rfl, body_of_query query⟩))
    have term : Derives firstReading term n _ b := fold_single inside
    exact fold_single term
  · -- a list of conditions in the parentheses would be that one subquery again, which is a query
    match es, others, same with
    | [_], others, same =>
        cases same
        exact absurd (others.conditions_query_iff.mpr ⟨b, rfl⟩) allowed

/-- A search condition stands in parentheses where a search condition may. -/
theorem condition_enclosed {e : Expr} (h : Derives firstReading (Form.construct .condition) n w e) :
    Derives firstReading (Form.construct .condition) n w.enclosed e := by
  have single : Derives firstReading conditions n w [e] :=
    separated_iff.mpr ⟨w, [], e, [], rfl, (List.append_nil w).symm, h, many_nil_iff.mpr rfl⟩
  have inside : Derives firstReading Grammar.parenthesis n w.enclosed e := by
    by_cases query : ∃ q, Derives anyReading (Form.construct .query) n w q
    · obtain ⟨b, same⟩ := single.conditions_query_iff.mp query
      obtain rfl := List.singleton_inj.mp same
      exact prefer_iff.mpr ⟨_, _, w, rfl, Or.inl ⟨_, query_of_subquery single, rfl⟩⟩
    · exact prefer_iff.mpr ⟨_, _, w, rfl, Or.inr ⟨[e], query, single, rfl⟩⟩
  have primary : Derives firstReading primary n w.enclosed e := by
    unfold primary
    simp only [or_iff]
    exact Or.inr (Or.inr (Or.inr (Or.inr (Or.inr (Or.inr inside)))))
  exact condition_of_primary primary

end Grammar.Derives

namespace Parse.Reads

variable {allows : Grammar.Allows} {α β : Type} {s m t : State}

/-- A form is read from a state in one way only: with one value, and up to one state. -/
def Only (allows : Grammar.Allows) (s : State) (F : Form α) (a : α) (t : State) : Prop :=
  ∀ b u, Reads allows s F b u → b = a ∧ u = t

theorem Only.map {F : Form β} {f : β → α} {b : β} (h : Only allows s F b t) :
    Only allows s (f <$> F) (f b) t := by
  intro a u reads
  obtain ⟨b', inside, rfl⟩ := map_iff.mp reads
  obtain ⟨rfl, rfl⟩ := h b' u inside
  exact ⟨rfl, rfl⟩

theorem Only.seq {F : Form (β → α)} {H : Form β} {f : β → α} {b : β} (first : Only allows s F f m)
    (second : Only allows m H b t) : Only allows s (F <*> H) (f b) t := by
  intro a u reads
  obtain ⟨f', b', m', head, rest, rfl⟩ := seq_iff.mp reads
  obtain ⟨rfl, rfl⟩ := first f' m' head
  obtain ⟨rfl, rfl⟩ := second b' u rest
  exact ⟨rfl, rfl⟩

theorem Only.seqRight {F : Form β} {H : Form α} {b : β} {a : α} (first : Only allows s F b m)
    (second : Only allows m H a t) : Only allows s (F *> H) a t := by
  intro a' u reads
  obtain ⟨b', m', head, rest⟩ := seqRight_iff.mp reads
  obtain ⟨rfl, rfl⟩ := first b' m' head
  exact second a' u rest

theorem Only.pure (a : α) : Only allows s (Pure.pure a : Form α) a s :=
  fun _ _ reads => (pure_iff.mp reads).2

theorem Only.right {F H : Form α} {a : α} (not_first : ∀ b u, ¬Reads allows s F b u) (h : Only allows s H a t) :
    Only allows s (F <|> H) a t := by
  intro b u reads
  rcases or_iff.mp reads with first | second
  · exact absurd first (not_first b u)
  · exact h b u second

theorem Only.many_nil {F : Form α} (not_item : ∀ b u, ¬Reads allows s F b u) :
    Only allows s (Form.many F) [] s := by
  intro items u reads
  cases items with
  | nil => exact ⟨rfl, (many_nil_iff.mp reads).2⟩
  | cons b items =>
      obtain ⟨m, item, _⟩ := many_cons_iff.mp reads
      exact absurd item (not_item b m)

theorem Only.optional_none {F : Form α} (not_item : ∀ b u, ¬Reads allows s F b u) :
    Only allows s (Form.optional F) none s := by
  refine .right (fun o u reads => ?_) (.pure none)
  obtain ⟨b, reads, _⟩ := map_iff.mp reads
  exact not_item b u reads

theorem Only.word (k : Keyword) : Only allows s (Form.word k) () s.advance :=
  fun _ _ reads => ⟨rfl, (word_iff.mp reads).2.2⟩

theorem Only.chain {operator : Kind → Option BinaryOp} {F : Form Expr} {e : Expr} (h : Only allows s F e t)
    (single : ∀ k op, operator k = some op → Single k) (halts : operator t.kind = none) :
    Only allows s (Form.chain operator F) e t := by
  refine Only.seq (f := fun rest => List.foldl _ e rest) h.map (.many_nil fun _ _ reads => ?_)
  obtain ⟨_, _, _, sign, _⟩ := seq_iff.mp reads
  obtain ⟨op, sign, _⟩ := map_iff.mp sign
  rw [((oneOf_iff single).mp sign).2.1] at halts
  cases halts

theorem Only.separated {k : Kind} {F : Form α} {a : α} (h : Only allows s F a t) (single : Single k)
    (halts : t.kind ≠ k) : Only allows s (Form.separated k F) [a] t := by
  refine Only.seq (f := List.cons a) h.map (.many_nil fun _ _ reads => ?_)
  obtain ⟨_, _, mark, _⟩ := seqRight_iff.mp reads
  exact halts ((mark_iff single).mp mark).2.1

theorem star_primary (star : s.kind = .star) : Only allows s Grammar.primary (.column [] true) s.advance := by
  have other : ∀ {k : Kind}, s.kind = k → k = .star := fun kind => kind.symm.trans star
  intro e u reads
  simp only [Grammar.primary, or_iff] at reads
  rcases reads with reads | reads | reads | reads | reads | reads | reads
  · simp only [Grammar.literal, or_iff, map_iff, word_iff] at reads
    rcases reads with ⟨_, number, _⟩ | ⟨_, string, _⟩ | ⟨_, word, _⟩ | ⟨_, word, _⟩ | ⟨_, word, _⟩
    · cases other ((text_iff ⟨rfl, by simp⟩).mp number).2.1
    · cases other ((text_iff ⟨rfl, by simp⟩).mp string).2.1
    all_goals cases other word.2.1
  · cases other (parameter_iff.mp reads).2.1
  · simp only [Grammar.signed, or_iff, map_iff, seqRight_iff] at reads
    rcases reads with ⟨_, ⟨_, _, sign, _⟩, _⟩ | ⟨_, ⟨_, _, sign, _⟩, _⟩ <;>
      cases other ((mark_iff ⟨rfl, by simp⟩).mp sign).2.1
  · simp only [Grammar.case, seqLeft_iff, seq_iff, map_iff, seqRight_iff, word_iff] at reads
    obtain ⟨_, _, ⟨_, _, _, ⟨_, _, _, ⟨_, _, _, ⟨_, ⟨_, _, word, _⟩, _⟩, _⟩, _⟩, _⟩, _⟩ := reads
    cases other word.2.1
  · simp only [Grammar.column, or_iff, map_iff, seqLeft_iff] at reads
    rcases reads with ⟨_, m, ⟨names, points, rfl⟩, mark⟩ | ⟨_, names, _⟩
    · cases names with
      | nil =>
          obtain ⟨_, rfl⟩ := many_nil_iff.mp points
          exact ⟨rfl, ((mark_iff ⟨rfl, by simp⟩).mp mark).2.2⟩
      | cons name names =>
          obtain ⟨_, point, _⟩ := many_cons_iff.mp points
          obtain ⟨_, _, first, _⟩ := seqLeft_iff.mp point
          cases other (name_iff.mp first).2.1
    · cases other (path_starts names)
  · simp only [Grammar.call, seq_iff, map_iff, or_iff] at reads
    obtain ⟨_, _, _, ⟨_, names | ⟨_, word, _⟩, _⟩, _⟩ := reads
    · cases other (path_starts names)
    · obtain ⟨j, kind, _⟩ := functionWord_iff.mp word
      cases other kind
  · cases other (prefer_iff.mp reads).2.1

theorem star_row (star : s.kind = .star) (stops : s.advance.kind = .keyword .FROM) :
    Only allows s Form.row (.column [] true) s.advance := by
  have sum : Only allows s Grammar.sum (.column [] true) s.advance := by
    rw [Grammar.sum_eq, Grammar.product_eq, Grammar.power_eq]
    exact (((star_primary star).chain power?_operators.single (by rw [stops]; rfl)).chain product?_operators.single
      (by rw [stops]; rfl)).chain sum?_operators.single (by rw [stops]; rfl)
  exact fun e u reads => sum e u (row_iff.mp reads)

private theorem star_front (star : s.advance.kind = .star) (stops : s.advance.advance.kind = .keyword .FROM) :
    Only allows s (SelectBlock.mk <$> (Form.word .SELECT *> Grammar.setQuantifier) <*> Form.commas Grammar.projection)
      (SelectBlock.mk .unspecified [⟨.column [] true, none⟩]) s.advance.advance := by
  have quantifier : Only allows s.advance Grammar.setQuantifier .unspecified s.advance := by
    intro q u reads
    rcases (setQuantifier_iff.mp reads).2 with ⟨found, _⟩ | ⟨rfl, rfl⟩
    · rw [star] at found
      cases found
    · exact ⟨rfl, rfl⟩
  have no_alias : Only allows s.advance.advance (Form.optional Grammar.nameAfterAs) none s.advance.advance := by
    refine .optional_none fun a u reads => ?_
    rcases nameAfterAs_starts reads with kind | kind
    · cases kind.symm.trans stops
    · cases kind.symm.trans stops
  have projection : Only allows s.advance Grammar.projection ⟨.column [] true, none⟩ s.advance.advance :=
    (star_row star stops).map.seq no_alias
  have single : Single .comma := ⟨rfl, by simp⟩
  exact ((Only.word .SELECT).seqRight quantifier).map.seq (projection.separated single (by simp [stops]))

/-- What stands behind `FROM` in a block that selects a star and has nothing else but one table. -/
theorem star_table {q : SetQuantifier} {ps : List Projection} {entry : TableRef}
    (reads : Reads allows s Grammar.selectBlock ⟨q, ps, [entry], none, none, none⟩ t)
    (star : s.advance.kind = .star) (stops : s.advance.advance.kind = .keyword .FROM) :
    q = .unspecified ∧ ps = [⟨.column [] true, none⟩] ∧
      Reads allows s.advance.advance.advance (Form.construct .table) entry t := by
  obtain ⟨_, having, _, grouped, last, same⟩ := seq_iff.mp reads
  obtain ⟨_, grouping, _, filtered, keys, rfl⟩ := seq_iff.mp grouped
  obtain ⟨_, filter, _, joined, rows, rfl⟩ := seq_iff.mp filtered
  obtain ⟨f, tables, m, head, entries, rfl⟩ := seq_iff.mp joined
  obtain ⟨rfl, rfl⟩ := star_front star stops f m head
  cases same
  obtain ⟨_, rfl⟩ := (optional_iff.mp last).resolve_left (by simp) |>.2
  obtain ⟨_, rfl⟩ := (optional_iff.mp keys).resolve_left (by simp) |>.2
  obtain ⟨_, rfl⟩ := (optional_iff.mp rows).resolve_left (by simp) |>.2
  refine ⟨rfl, rfl, ?_⟩
  rcases or_iff.mp entries with entries | none_
  · obtain ⟨_, _, word, entries⟩ := seqRight_iff.mp entries
    obtain ⟨_, _, rfl⟩ := word_iff.mp word
    obtain ⟨_, _, _, one, first, others⟩ := separated_iff.mp entries
    cases one
    obtain ⟨_, rfl⟩ := many_nil_iff.mp others
    exact first
  · cases (pure_iff.mp none_).2.1

end Parse.Reads

private theorem Parse.State.Spells.head {s t : State} {σ : Symbol} {w : Word} (h : s.Spells (σ :: w) t)
    (complete : s.Complete) (other : σ.kind ≠ .question) : s.kind = σ.kind ∧ s.advance.Spells w t := by
  obtain ⟨m, first, rest⟩ := State.Spells.split (u := [σ]) h
  obtain ⟨rfl, _, rfl⟩ := (State.spells_single_iff complete).mp first
  rw [State.next_eq_advance other] at rest
  exact ⟨rfl, rest⟩

def Word.selectStar : Word := [.mark (.keyword .SELECT), .mark .star, .mark (.keyword .FROM)]

namespace Grammar.Derives

variable {allows : Allows} {n : Nat} {w : Word}

/-- A chain of query bodies that stands for no set operation is its first body. -/
theorem setChain_leaf {operator : Kind → Option SetOp} {F : Form Body} {b : SelectBlock}
    (h : Derives allows (setChain operator F) n w (.block b)) : Derives allows F n w (.block b) := by
  have general := fold_induction
    (motive := fun w body => Derives allows F n w body ∨ ∃ op q l r, body = .setOp op q l r)
    h (fun _ _ => Or.inl) fun _ left _ next _ _ => Or.inr ⟨next.1, next.2.1, left, next.2.2, rfl⟩
  rcases general with first | ⟨op, q, l, r, same⟩
  · exact first
  · cases same

/-- What stands behind `SELECT * FROM` in a query that is one block with one table and nothing else. -/
theorem table_of_selectStar {q : SetQuantifier} {ps : List Projection} {entry : TableRef}
    (h : Derives allows (Form.construct .query) n (Word.selectStar ++ w)
      ⟨Option.none, .block ⟨q, ps, [entry], Option.none, Option.none, Option.none⟩, []⟩) :
    q = .unspecified ∧ ps = [⟨.column [] true, Option.none⟩] ∧
      Derives allows (Form.construct .table) n w entry := by
  have chain := construct_iff.mp (body_of_query h)
  rcases or_iff.mp (setChain_leaf (setChain_leaf chain)) with block | parens
  · obtain ⟨b, block, same⟩ := map_iff.mp block
    cases same
    obtain ⟨s, t, complete, rfl, spells, _⟩ := Parse.exists_spells n h.live
    have complete' : s.advance.Complete := s.advance_within.complete complete
    have complete'' : s.advance.advance.Complete := s.advance.advance_within.complete complete'
    obtain ⟨_, rest⟩ := spells.head complete (by decide)
    obtain ⟨star, rest⟩ := rest.head complete' (by decide)
    obtain ⟨stops, rest⟩ := rest.head complete'' (by decide)
    have reads : Parse.Reads allows s selectBlock _ t := ⟨complete, _, spells, block⟩
    obtain ⟨rfl, rfl, _, v, rest', table⟩ := reads.star_table star stops
    obtain rfl := rest.word_unique rest'
    exact ⟨rfl, rfl, table⟩
  · obtain ⟨_, _, _, impossible, _⟩ := parens_iff.mp parens
    cases impossible

theorem selectStar_of_table {entry : TableRef} (h : Derives allows (Form.construct .table) n w entry) :
    Derives allows (Form.construct .query) n (Word.selectStar ++ w)
      ⟨Option.none, .block ⟨.unspecified, [⟨.column [] true, Option.none⟩], [entry], Option.none, Option.none,
        Option.none⟩, []⟩ := by
  have column : Derives allows column n [.mark .star] (.column [] true) :=
    or_iff.mpr (Or.inl (seqLeft_iff.mpr ⟨[], [.mark .star], (), rfl,
      map_iff.mpr ⟨[], many_nil_iff.mpr rfl, rfl⟩, mark_iff.mpr ⟨_, rfl, rfl⟩⟩))
  have primary : Derives allows primary n [.mark .star] (.column [] true) := by
    unfold primary
    simp only [or_iff]
    exact Or.inr (Or.inr (Or.inr (Or.inr (Or.inl column))))
  have row : Derives allows Form.row n [.mark .star] (.column [] true) :=
    row_iff.mpr (fold_single (fold_single (fold_single primary)))
  have projection : Derives allows projection n [.mark .star] ⟨.column [] true, Option.none⟩ :=
    seq_iff.mpr ⟨_, [], _, Option.none, rfl, map_iff.mpr ⟨_, row, rfl⟩, optional_none_iff.mpr rfl, rfl⟩
  have projections : Derives allows (Form.commas Grammar.projection) n [.mark .star]
      [⟨.column [] true, Option.none⟩] :=
    separated_iff.mpr ⟨_, [], _, [], rfl, rfl, projection, many_nil_iff.mpr rfl⟩
  have quantifier : Derives allows (Form.word .SELECT *> setQuantifier) n [.mark (.keyword .SELECT)] .unspecified :=
    seqRight_iff.mpr ⟨_, [], (), rfl, word_iff.mpr ⟨_, rfl⟩, or_iff.mpr (Or.inr (pure_iff.mpr ⟨rfl, rfl⟩))⟩
  have entries : Derives allows tables n (.mark (.keyword .FROM) :: w) [entry] := by
    refine or_iff.mpr (Or.inl (seqRight_iff.mpr ⟨[_], w, (), rfl, word_iff.mpr ⟨_, rfl⟩, ?_⟩))
    exact separated_iff.mpr ⟨w, [], entry, [], rfl, (List.append_nil w).symm, h, many_nil_iff.mpr rfl⟩
  have front : Derives allows (SelectBlock.mk <$> (Form.word .SELECT *> setQuantifier) <*>
      Form.commas Grammar.projection) n ([.mark (.keyword .SELECT)] ++ [.mark .star]) _ :=
    .sequence (map_iff.mpr ⟨_, quantifier, rfl⟩) projections
  have joined : Derives allows (SelectBlock.mk <$> (Form.word .SELECT *> setQuantifier) <*>
      Form.commas Grammar.projection <*> tables) n
        ([.mark (.keyword .SELECT), .mark .star] ++ .mark (.keyword .FROM) :: w) _ :=
    .sequence front entries
  -- the other clauses of the block are missing
  have missing : ∀ {α : Type} {F : Form α} {m : Nat}, Derives allows (Form.optional F) m [] Option.none :=
    optional_none_iff.mpr rfl
  have block : Derives allows selectBlock n (Word.selectStar ++ w ++ [] ++ [] ++ []) _ :=
    .sequence (.sequence (.sequence joined missing) missing) missing
  simp only [List.append_nil] at block
  have inside : Derives allows bodyPrimary n (Word.selectStar ++ w) _ :=
    or_iff.mpr (Or.inl (map_iff.mpr ⟨_, block, rfl⟩))
  have term : Derives allows term n (Word.selectStar ++ w) _ := fold_single inside
  exact query_of_body (construct_iff.mpr (fold_single term))

end Grammar.Derives

/-- A text in parentheses, of which the closing one stands on a line of its own. -/
def parenthesize (text : String) : String := "(" ++ text ++ "\n)"

theorem ScansTo.parenthesize {text : String} {w : Word} (h : ScansTo text w) :
    ScansTo (parenthesize text) w.enclosed := by
  obtain ⟨last, whole, ends⟩ := h
  have closing : Lexes [')'] [.mark .rightParen] [] :=
    .lexeme rfl (Lexeme.readsAs_lone (by decide) []) (.done [])
  have opening : Lexes ('(' :: (text.toList ++ '\n' :: [')'])) [.mark .leftParen] (text.toList ++ '\n' :: [')']) :=
    .lexeme rfl (Lexeme.readsAs_lone (by decide) _) (.done _)
  have chars : (SelectSyntax.parenthesize text).toList = '(' :: (text.toList ++ '\n' :: [')']) := by
    simp [SelectSyntax.parenthesize, String.toList_append]
  refine ⟨⟨.eof, ""⟩, ?_, rfl⟩
  rw [chars, Word.ofChars_lexes opening, Word.ofChars_before whole ends, Word.ofChars_lexes closing,
    Word.ofChars_nil]
  simp [Word.enclosed]

theorem ofChars_selectStar (text : String) :
    Word.ofChars ("SELECT * FROM " ++ text).toList = Word.selectStar ++ Word.ofChars text.toList := by
  have stops : ∀ rest, Stops Text.CharClass.isWordChar (' ' :: rest) := by
    rintro rest c _ ⟨⟩
    rfl
  have front : Lexes ("SELECT".toList ++ ' ' :: (['*'] ++ ' ' :: ("FROM".toList ++ ' ' :: text.toList)))
      Word.selectStar text.toList :=
    .lexeme rfl (Lexeme.readsAs_keyword rfl (stops _)) (.gap (.lexeme rfl (Lexeme.readsAs_lone (by decide) _)
      (.gap (.lexeme rfl (Lexeme.readsAs_keyword rfl (stops _)) (.gap (.done _))))))
  rw [String.toList_append]
  exact Word.ofChars_lexes front

theorem scansTo_selectStar_iff {text : String} {w : Word} :
    ScansTo ("SELECT * FROM " ++ text) w ↔ ∃ v, w = Word.selectStar ++ v ∧ ScansTo text v := by
  simp only [ScansTo, ofChars_selectStar]
  constructor
  · rintro ⟨last, whole, ends⟩
    obtain ⟨v, σ, chars⟩ : ∃ v σ, Word.ofChars text.toList = v ++ [σ] := by
      have some_ : Word.ofChars text.toList ≠ [] := by
        rw [Word.ofChars]
        simp
      exact ⟨_, _, (List.dropLast_concat_getLast some_).symm⟩
    rw [chars, ← List.append_assoc] at whole
    obtain ⟨rfl, same⟩ := List.append_inj' whole rfl
    exact ⟨v, rfl, last, by rw [chars, same], ends⟩
  · rintro ⟨v, rfl, last, whole, ends⟩
    exact ⟨last, by rw [whole, List.append_assoc], ends⟩

theorem Session.ReadsAll.parenthesize {text : String} {e : Expr} (h : ReadsAll text e) :
    ReadsAll (parenthesize text) e := by
  obtain ⟨w, scans, derives⟩ := readsAll_iff.mp h
  exact readsAll_iff.mpr ⟨_, scans.parenthesize, derives.condition_enclosed⟩

theorem Scanner.SelectsAll.parenthesize {text : String} {b : Body} (h : SelectsAll text ⟨none, b, []⟩) :
    SelectsAll (parenthesize text) ⟨none, b, []⟩ := by
  obtain ⟨w, scans, derives⟩ := selectsAll_iff.mp h
  exact selectsAll_iff.mpr ⟨_, scans.parenthesize, derives.query_enclosed⟩

/-- What stands behind `SELECT * FROM` is a table reference, where the query is one block with one table and
nothing else. -/
theorem Scanner.selectsAll_selectStar_iff {text : String} {q : SetQuantifier} {ps : List Projection}
    {entry : TableRef} :
    SelectsAll ("SELECT * FROM " ++ text) ⟨none, .block ⟨q, ps, [entry], none, none, none⟩, []⟩ ↔
      q = .unspecified ∧ ps = [⟨.column [] true, none⟩] ∧
        ∃ w, ScansTo text w ∧ Grammar.Derives Grammar.firstReading (Form.construct .table) 0 w entry := by
  simp only [selectsAll_iff, scansTo_selectStar_iff]
  constructor
  · rintro ⟨_, ⟨w, rfl, scans⟩, derives⟩
    obtain ⟨rfl, rfl, table⟩ := derives.table_of_selectStar
    exact ⟨rfl, rfl, w, scans, table⟩
  · rintro ⟨rfl, rfl, w, scans, table⟩
    exact ⟨_, ⟨w, rfl, scans⟩, table.selectStar_of_table⟩

/-- Parentheses around a search condition, around a query without `WITH` and `ORDER BY`, and around the only table
of a block that has nothing else, leave no node, however many there are: what is read up to the end of the text
stays the same, with the numbers of its parameters. -/
theorem parenthesize_leaves_no_node (n : Nat) (text : String) :
    (∀ e, Session.ReadsAll text e → Session.ReadsAll (parenthesize^[n] text) e) ∧
      (∀ t, Scanner.SelectsAll text t → t.withClause = none → t.orderBy = [] →
        Scanner.SelectsAll (parenthesize^[n] text) t) ∧
      ∀ quantifier projections entry,
        let t : Statement := ⟨none, .block ⟨quantifier, projections, [entry], none, none, none⟩, []⟩
        Scanner.SelectsAll ("SELECT * FROM " ++ text) t →
          Scanner.SelectsAll ("SELECT * FROM " ++ parenthesize^[n] text) t := by
  induction n with
  | zero => exact ⟨fun _ h => h, fun _ h _ _ => h, fun _ _ _ h => h⟩
  | succ n ih =>
      obtain ⟨conditions, queries, tables⟩ := ih
      rw [Function.iterate_succ_apply']
      refine ⟨fun e h => (conditions e h).parenthesize, ?_, fun q ps entry h => ?_⟩
      · rintro ⟨_, b, _⟩ h rfl rfl
        exact (queries _ h rfl rfl).parenthesize
      · obtain ⟨rfl, rfl, w, scans, table⟩ := Scanner.selectsAll_selectStar_iff.mp (tables q ps entry h)
        exact Scanner.selectsAll_selectStar_iff.mpr ⟨rfl, rfl, _, scans.parenthesize, table.table_enclosed⟩

/-- A subquery with a comment behind it, a set operation with a parameter on each side, and a join of a table in
parentheses with a derived table. -/
theorem parenthesize_leaves_no_node_readings :
    let block (n : Nat) : SelectBlock := ⟨.unspecified, [⟨.parameter n, none⟩], [], none, none, none⟩
    let e : Expr := .subquery ⟨none, .block (block 1), []⟩
    let t : Statement := ⟨none, .setOp .union .all (.block (block 1)) (.block (block 2)), []⟩
    let entry : TableRef := .join (.sided true .plain) (.relation ["a"] none)
      (.derived ⟨none, .block (block 1), []⟩ "d" []) none
    let u : Statement := ⟨none, .block ⟨.unspecified, [⟨.column [] true, none⟩], [entry], none, none, none⟩, []⟩
    let join := "(a) natural join (select ?) as d"
    (Session.ReadsAll "(select ?) -- )" e ∧ Session.ReadsAll (parenthesize^[3] "(select ?) -- )") e) ∧
      (Scanner.SelectsAll "select ? union all (select ?)" t ∧ t.withClause = none ∧ t.orderBy = [] ∧
        Scanner.SelectsAll (parenthesize^[2] "select ? union all (select ?)") t) ∧
      Scanner.SelectsAll ("SELECT * FROM " ++ join) u ∧
        Scanner.SelectsAll ("SELECT * FROM " ++ parenthesize^[4] join) u := by
  intro block e t entry u join
  have condition : Session.ReadsAll "(select ?) -- )" e := ⟨rfl, rfl⟩
  have query : Scanner.SelectsAll "select ? union all (select ?)" t := ⟨rfl, rfl⟩
  have text : "SELECT * FROM " ++ join = "SELECT * FROM (a) natural join (select ?) as d" := rfl
  have table : Scanner.SelectsAll ("SELECT * FROM " ++ join) u := text ▸ ⟨rfl, rfl⟩
  exact ⟨⟨condition, (parenthesize_leaves_no_node 3 _).1 e condition⟩,
    ⟨query, rfl, rfl, (parenthesize_leaves_no_node 2 _).2.1 t query rfl rfl⟩, table,
    (parenthesize_leaves_no_node 4 join).2.2 _ _ entry table⟩

end SelectSyntax
