import Mathlib.Computability.MyhillNerode
import SelectSyntax.Proofs.Soundness
import SelectSyntax.Proofs.Transcription

/-!
No parser moves on past the point where its input can still be completed. Along a run the words that may
still follow are kept as a language: it is the quotient of the words that were to be read by the tokens that
have been taken. Wherever a parser gives up this language holds a word that can be written down.
-/

set_option autoImplicit false
set_option relaxedAutoImplicit false

namespace SelectSyntax

open Form (language_chain language_construct language_flag language_map language_optional language_or
  language_parameter language_parens language_prefer language_pure language_row language_separated
  language_seq language_seqLeft language_seqRight language_text language_word)
open Token (Kind Keyword)
open SyntaxTree (BinaryOp Body Expr JoinKind JoinSide SetOp SetQuantifier Statement TableRef)
open Word (single)

/-- A language with a word all of whose symbols are written. -/
class Productive (T : Language Symbol) : Prop where
  exists_written : ∃ w ∈ T, ∀ s ∈ w, s.Written

namespace Productive

variable {A B : Language Symbol}

theorem mono [Productive A] (le : A ≤ B) : Productive B := by
  obtain ⟨w, mem, written⟩ := exists_written (T := A)
  exact ⟨w, le mem, written⟩

theorem of_one_le (le : 1 ≤ B) : Productive B := ⟨[], le rfl, by simp⟩

instance one : Productive 1 := of_one_le (le_refl _)

instance mul [Productive A] [Productive B] : Productive (A * B) := by
  obtain ⟨u, mem, written⟩ := exists_written (T := A)
  obtain ⟨v, mem', written'⟩ := exists_written (T := B)
  refine ⟨u ++ v, Language.append_mem_mul mem mem', fun s mem => ?_⟩
  rcases List.mem_append.mp mem with mem | mem
  · exact written s mem
  · exact written' s mem

instance left [Productive A] : Productive (A + B) := mono (le_self_add (a := A))

instance right [Productive B] : Productive (A + B) := mono (le_add_self (a := B))

theorem single {kind : Kind} {chars : List Char} (live : kind.isTerminal = false)
    (regular : Lexeme.Regular kind chars) : Productive (single kind) := by
  refine ⟨[.ofText kind (String.ofList chars)], ⟨_, rfl⟩, fun _ mem => ?_⟩
  obtain rfl := List.mem_singleton.mp mem
  exact ⟨live, chars, regular, rfl⟩

instance keyword (k : Keyword) : Productive (Word.single (.keyword k)) := by
  have spelled := Token.Keyword.ofText?_spelling k
  obtain ⟨c, text, chars, start, all⟩ := Lexeme.word_of_ofText? spelled
  have regular := Lexeme.Regular.word start all
  rw [Keyword.ofText?, chars] at spelled
  rw [spelled] at regular
  exact single rfl regular

instance identifier : Productive (Word.single .identifier) :=
  single rfl (Lexeme.Regular.word (c := 'a') rfl fun _ mem => absurd mem List.not_mem_nil)

instance dot : Productive (Word.single .dot) := single rfl .dot

instance leftParen : Productive (Word.single .leftParen) := single rfl (.single (c := '(') (by decide))

instance rightParen : Productive (Word.single .rightParen) := single rfl (.single (c := ')') (by decide))

section
variable {α β : Type} {F : Form α}

instance many : Productive (Form.many F).language := of_one_le (Form.one_le_many F)

instance optional : Productive (Form.optional F).language := by
  rw [language_optional]
  infer_instance

instance separated {k : Kind} [Productive F.language] : Productive (Form.separated k F).language :=
  mono (Form.le_separated k F)

instance commas [Productive F.language] : Productive (Form.commas F).language := separated

instance chain {operator : Kind → Option BinaryOp} {F : Form Expr} [Productive F.language] :
    Productive (Form.chain operator F).language :=
  mono (Form.le_chain operator F)

end

instance name : Productive Grammar.name.language := by
  rw [Form.language_name]
  infer_instance

instance primary : Productive Grammar.primary.language := by
  simp only [Grammar.primary, Grammar.column, Grammar.path, language_or, language_map]
  infer_instance

instance power : Productive Grammar.power.language :=
  inferInstanceAs (Productive (Form.chain _ _).language)

instance product : Productive Grammar.product.language :=
  inferInstanceAs (Productive (Form.chain _ Grammar.power).language)

instance row : Productive Form.row.language := by
  rw [language_row]
  exact inferInstanceAs (Productive (Form.chain _ Grammar.product).language)

instance truthValue : Productive Grammar.truthValue.language :=
  mono (Form.single_le_oneOf (k := .keyword .TRUE) rfl rfl)

instance predicate : Productive Grammar.predicate.language := by
  simp only [Grammar.predicate, language_or, language_seq, language_map, language_pure]
  infer_instance

instance negation : Productive Grammar.negation.language := by
  simp only [Grammar.negation, Grammar.truthTest, language_or, language_seq, language_map, language_pure]
  infer_instance

instance conjunction : Productive Grammar.conjunction.language :=
  inferInstanceAs (Productive (Form.chain _ Grammar.negation).language)

instance nameAfterAs : Productive Grammar.nameAfterAs.language := by
  rw [Grammar.nameAfterAs, language_or]
  infer_instance

instance joinSide : Productive Grammar.joinSide.language := by
  simp only [Grammar.joinSide, language_or, language_pure]
  infer_instance

instance tablePrimary : Productive Grammar.tablePrimary.language := by
  simp only [Grammar.tablePrimary, Grammar.path, language_or, language_seq, language_map]
  infer_instance

instance setQuantifier : Productive Grammar.setQuantifier.language := by
  simp only [Grammar.setQuantifier, language_or, language_pure]
  infer_instance

instance tables : Productive Grammar.tables.language := by
  simp only [Grammar.tables, language_or, language_pure]
  infer_instance

instance columns : Productive Grammar.columns.language := by
  simp only [Grammar.columns, language_or, language_pure]
  infer_instance

instance orderBy : Productive Grammar.orderBy.language := by
  simp only [Grammar.orderBy, language_or, language_pure]
  infer_instance

instance orderItem : Productive Grammar.orderItem.language := by
  simp only [Grammar.orderItem, Grammar.direction, language_seq, language_map, language_or, language_pure]
  infer_instance

instance projection : Productive Grammar.projection.language := by
  simp only [Grammar.projection, language_seq, language_map]
  infer_instance

instance selectBlock : Productive Grammar.selectBlock.language := by
  simp only [Grammar.selectBlock, language_seq, language_map, language_seqRight, language_word]
  infer_instance

instance setChain {operator : Kind → Option SetOp} {F : Form Body} [Productive F.language] :
    Productive (Grammar.setChain operator F).language :=
  mono (Form.le_setChain operator F)

instance bodyPrimary : Productive Grammar.bodyPrimary.language := by
  simp only [Grammar.bodyPrimary, language_or, language_map]
  infer_instance

instance term : Productive Grammar.term.language :=
  inferInstanceAs (Productive (Grammar.setChain _ Grammar.bodyPrimary).language)

instance wholeBody : Productive Grammar.body.language :=
  inferInstanceAs (Productive (Grammar.setChain _ Grammar.term).language)

instance construct (e : Parse.Entry) : Productive (Form.construct e).language := by
  rw [language_construct]
  cases e with
  | query =>
      show Productive Grammar.query.language
      simp only [Grammar.query, language_seq, language_map]
      infer_instance
  | body => exact wholeBody
  | condition => exact inferInstanceAs (Productive (Form.chain _ Grammar.conjunction).language)
  | negated => exact negation
  | signed => exact primary
  | table =>
      show Productive Grammar.table.language
      simp only [Grammar.table, language_seq, language_map]
      infer_instance

/-! The constructs once more, where their trees are known as such. -/

instance query : Productive (Form.construct .query : Form Statement).language := construct .query

instance body : Productive (Form.construct .body : Form Body).language := construct .body

instance condition : Productive (Form.construct .condition : Form Expr).language := construct .condition

instance table : Productive (Form.construct .table : Form TableRef).language := construct .table

instance conditions : Productive Grammar.conditions.language :=
  inferInstanceAs (Productive (Form.commas (Form.construct .condition : Form Expr)).language)

instance arguments : Productive Grammar.arguments.language := by
  simp only [Grammar.arguments, language_parens, language_or, language_pure]
  infer_instance

instance namedQuery : Productive Grammar.namedQuery.language := by
  simp only [Grammar.namedQuery, language_seq, language_map, language_seqRight, language_word, language_parens]
  infer_instance

instance branch : Productive Grammar.case.branch.language := by
  rw [Grammar.case.branch, language_seq, language_map, language_seqRight, language_seqRight, language_word,
    language_word]
  infer_instance

end Productive

namespace Parse

/-- A cursor comes to another one past the tokens with the symbols of a word. -/
def Cursor.Spells (c : Cursor) (w : Word) (d : Cursor) : Prop :=
  ∃ run, c.snapshots = run ++ d.snapshots ∧ run.map (fun p => p.token.symbol) = w

namespace Cursor.Spells

theorem refl (c : Cursor) : c.Spells [] c := ⟨[], rfl, rfl⟩

theorem trans {c d e : Cursor} {u v : Word} (first : c.Spells u d) (second : d.Spells v e) :
    c.Spells (u ++ v) e := by
  obtain ⟨run, snapshots, rfl⟩ := first
  obtain ⟨run', snapshots', rfl⟩ := second
  exact ⟨run ++ run', by rw [snapshots, snapshots', List.append_assoc], List.map_append⟩

theorem within {c d : Cursor} {w : Word} (h : c.Spells w d) : d.Within c := by
  obtain ⟨run, snapshots, _⟩ := h
  exact ⟨run, snapshots.symm⟩

theorem advance {s : State} (complete : s.Complete) (live : s.kind.isTerminal = false) :
    s.cursor.Spells [s.token.symbol] s.advance.cursor :=
  ⟨[s.cursor.current], Complete.snapshots_advance complete live, rfl⟩

end Cursor.Spells

section
variable {α β : Type} {T U : Language Symbol}

/-- A run in front of which the words of a language may follow: with a value, those of a language that it
decides may follow; where it fails, some word may that can be written down. -/
def ViableAt (s : State) (T : Language Symbol) (p : Parser α) (Q : α → Language Symbol) : Prop :=
  match p s with
  | .ok a t => ∃ w, s.cursor.Spells w t.cursor ∧ Q a ≤ T.leftQuotient w
  | .error f _ => ∃ w, s.cursor.Spells w f.cursor ∧ Productive (T.leftQuotient w)

def Viable (T : Language Symbol) (p : Parser α) (Q : α → Language Symbol) : Prop :=
  ∀ s : State, s.Complete → ViableAt s T p Q

variable {s : State} {p : Parser α} {Q Q' : α → Language Symbol} {R : β → Language Symbol}

theorem ViableAt.of_eq {q : Parser α} (same : p s = q s) (h : ViableAt s T q Q) : ViableAt s T p Q := by
  unfold ViableAt
  rw [same]
  exact h

theorem ViableAt.weaken (h : ViableAt s T p Q) (wider : T ≤ U) (less : ∀ a, Q' a ≤ Q a) :
    ViableAt s U p Q' := by
  unfold ViableAt at h ⊢
  cases run : p s with
  | ok a t =>
      rw [run] at h
      obtain ⟨w, spells, le⟩ := h
      exact ⟨w, spells, fun v mem => wider (le (less a mem))⟩
  | error f t =>
      rw [run] at h
      obtain ⟨w, spells, productive⟩ := h
      exact ⟨w, spells, .mono (A := T.leftQuotient w) fun v mem => wider mem⟩

theorem ViableAt.bind {f : α → Parser β} (complete : s.Complete) (first : ViableAt s T p Q)
    (rest : ∀ a, Viable (Q a) (f a) R) : ViableAt s T (p >>= f) R := by
  unfold ViableAt at first ⊢
  cases run : p s with
  | error e t => simpa only [run, bind_of_error run] using first
  | ok a t =>
      rw [run] at first
      obtain ⟨w, spells, le⟩ := first
      have next := rest a t (spells.within.complete complete)
      rw [bind_of_ok run]
      unfold ViableAt at next
      cases run' : f a t with
      | ok b u =>
          rw [run'] at next
          obtain ⟨v, spells', le'⟩ := next
          refine ⟨w ++ v, spells.trans spells', fun z mem => ?_⟩
          rw [Language.leftQuotient_append]
          exact le (le' mem)
      | error e u =>
          rw [run'] at next
          obtain ⟨v, spells', productive⟩ := next
          refine ⟨w ++ v, spells.trans spells', ?_⟩
          rw [Language.leftQuotient_append]
          exact .mono (A := (Q a).leftQuotient v) fun z mem => le mem

theorem ViableAt.map {f : α → β} (h : ViableAt s T p fun a => R (f a)) : ViableAt s T (f <$> p) R := by
  unfold ViableAt at h ⊢
  cases run : p s with
  | ok a t => simpa only [run, map_of_ok run] using h
  | error e t => simpa only [run, map_of_error run] using h

namespace Viable

theorem weaken (h : Viable T p Q) (wider : T ≤ U) (less : ∀ a, Q' a ≤ Q a) : Viable U p Q' :=
  fun s complete => (h s complete).weaken wider less

theorem wider (h : Viable T p Q) (le : T ≤ U) : Viable U p Q := h.weaken le fun _ => le_refl _

theorem pure (a : α) (le : Q a ≤ T) : Viable T (pure a) Q := fun _ _ => ⟨[], .refl _, le⟩

theorem fail [Productive T] (cause : Cause) : Viable T (fail cause) Q := fun _ _ =>
  ⟨[], .refl _, ‹Productive T›⟩

theorem unexpected (h : Productive T) (expected : List Kind) : Viable T (unexpected expected) Q :=
  fail _

theorem bind {f : α → Parser β} (first : Viable T p Q) (rest : ∀ a, Viable (Q a) (f a) R) :
    Viable T (p >>= f) R :=
  fun s complete => (first s complete).bind complete rest

theorem map {f : α → β} (h : Viable T p fun a => R (f a)) : Viable T (f <$> p) R :=
  fun s complete => (h s complete).map

theorem look {f : Kind → Parser α} (rest : ∀ k, Viable T (f k) Q) : Viable T (kind >>= f) Q :=
  fun s complete => rest s.kind s complete

end Viable

private theorem taken {L : Language Symbol} (complete : s.Complete) (live : s.kind.isTerminal = false)
    (mem : [s.token.symbol] ∈ L) (le : L * U ≤ T) :
    ∃ w, s.cursor.Spells w s.advance.cursor ∧ U ≤ T.leftQuotient w :=
  ⟨_, .advance complete live, fun _ follows => le (Language.append_mem_mul mem follows)⟩

theorem mem_single {k : Kind} (kind : s.kind = k) : [s.token.symbol] ∈ single k := by
  subst kind
  exact ⟨_, rfl⟩

theorem ViableAt.advance {k : Kind} (complete : s.Complete) (kind : s.kind = k)
    (live : k.isTerminal = false) (le : single k * U ≤ T) : ViableAt s T advance fun _ => U :=
  taken complete (kind ▸ live) (mem_single kind) le

theorem ViableAt.parameter (complete : s.Complete) (kind : s.kind = .question)
    (le : single .question * U ≤ T) : ViableAt s T parameter fun _ => U :=
  taken complete (by rw [kind]; rfl) (mem_single kind) le

theorem ViableAt.kind {f : Kind → Parser α} (h : ViableAt s T (f s.kind) Q) :
    ViableAt s T (kind >>= f) Q := h

theorem ViableAt.token {f : Token → Parser α} (h : ViableAt s T (f s.token) Q) :
    ViableAt s T (token >>= f) Q := h

namespace Viable

theorem eat {k : Kind} (live : k.isTerminal = false) (le : single k * U ≤ T) :
    Viable T (eat k) fun taken => bif taken then U else T := by
  intro s complete
  unfold ViableAt
  by_cases kind : s.kind = k
  · rw [eat_of_kind kind]
    exact taken complete (kind ▸ live) (mem_single kind) le
  · rw [eat_of_ne kind]
    exact ⟨[], .refl _, le_refl _⟩

end Viable

def Spans (p : Parser α) (A : Language Symbol) : Prop :=
  ∀ T [Productive T], Viable (A * T) p fun _ => T

/-- A parser of a phrase of a language that may be missing. -/
def Offers (item? : Parser (Option α)) (A : Language Symbol) : Prop :=
  ∀ T U [Productive U], A * U ≤ T → Viable T item? fun o => bif o.isSome then U else T

variable {A B : Language Symbol} {item? : Parser (Option α)}

theorem Spans.andThen [Productive T] (first : Spans p A) {f : α → Parser β} (rest : ∀ a, Viable T (f a) R) :
    Viable (A * T) (p >>= f) R :=
  (first T).bind rest

theorem Spans.map [Productive T] (h : Spans p A) (f : α → β) : Viable (A * T) (f <$> p) fun _ => T :=
  .map (h T)

theorem Spans.wider (h : Spans p A) (le : A ≤ B) : Spans p B :=
  fun T _ => (h T).wider (mul_le_mul_left le T)

theorem Spans.expect {k : Kind} [Productive (single k)] (live : k.isTerminal = false) :
    Spans (expect k) (single k) := by
  intro T _ s complete
  unfold ViableAt
  by_cases kind : s.kind = k
  · rw [expect_of_kind kind]
    exact taken complete (kind ▸ live) (mem_single kind) (le_refl _)
  · rw [expect_of_ne kind]
    exact ⟨[], .refl _, inferInstanceAs (Productive (single k * T))⟩

theorem Offers.identifier? : Offers identifier? (single .identifier) := by
  intro T U _ le s complete
  unfold ViableAt Parse.identifier?
  by_cases kind : s.kind = .identifier
  · rw [if_pos kind]
    exact taken complete (by rw [kind]; rfl) (mem_single kind) le
  · rw [if_neg kind]
    exact ⟨[], .refl _, le_refl _⟩

theorem Offers.take? {read : Kind → Option α} (plain : ∀ k a, read k = some a → Reads.Single k) :
    Offers (take? read) (Form.oneOf read).language := by
  intro T U _ le s complete
  unfold ViableAt Parse.take?
  cases value : read s.kind with
  | some a =>
      have isPlain := (plain _ a value).1
      have live : s.kind.isTerminal = false := by
        simp only [Symbol.isPlain, Bool.and_eq_true, Bool.not_eq_true'] at isPlain
        exact isPlain.2
      have mem : [s.token.symbol] ∈ (Form.oneOf read).language :=
        ⟨0, a, Grammar.Derives.oneOf_iff.mpr ⟨_, rfl, isPlain, value⟩⟩
      exact taken complete live mem le
  | none => exact ⟨[], .refl _, le_refl _⟩

theorem Offers.optional (h : Offers item? A) : Spans item? (A + 1) := by
  intro T _
  refine (h ((A + 1) * T) T ?_).weaken (le_refl _) fun o => ?_
  · exact mul_le_mul_left le_self_add T
  · cases o with
    | some a => exact le_refl T
    | none =>
        show T ≤ (A + 1) * T
        rw [add_mul, one_mul]
        exact le_add_self

theorem Spans.eat {k : Kind} (live : k.isTerminal = false) : Spans (eat k) (single k + 1) := by
  intro T _
  refine (Viable.eat live (mul_le_mul_left le_self_add T)).weaken (le_refl _) fun taken => ?_
  cases taken with
  | true => exact le_refl T
  | false =>
      show T ≤ (single k + 1) * T
      rw [add_mul, one_mul]
      exact le_add_self

theorem Offers.after? {k : Kind} [Productive A] (live : k.isTerminal = false) (h : Spans p A) :
    Offers (after? k p) (single k * A) := by
  intro T U _ le
  rw [mul_assoc] at le
  refine (Viable.eat live le).bind fun taken => ?_
  cases taken with
  | true => exact h.andThen fun _ => .pure _ (le_refl U)
  | false => exact .pure _ (le_refl T)

/-- Phrases one after another, of which the first one changes what may follow. -/
theorem Viable.many (first : Viable T item? fun o => bif o.isSome then U else T)
    (more : Viable U item? fun _ => U) :
    Viable T (many item?) fun items => bif items.isEmpty then T else U := by
  have rest : ∀ n, Viable U (manyWithin item? n) fun _ => U := by
    intro n
    induction n with
    | zero => exact .pure [] (le_refl U)
    | succ n ih =>
        refine more.bind fun o => ?_
        cases o with
        | none => exact .pure [] (le_refl U)
        | some a => exact ih.bind fun _ => .pure _ (le_refl U)
  have start : ∀ n, Viable T (manyWithin item? n) fun items => bif items.isEmpty then T else U := by
    intro n
    cases n with
    | zero => exact .pure [] (le_refl T)
    | succ n =>
        refine first.bind fun o => ?_
        cases o with
        | none => exact .pure [] (le_refl T)
        | some a => exact (rest n).bind fun _ => .pure _ (le_refl U)
  exact fun s complete => .of_eq rfl (start s.cursor.remaining s complete)

variable {F : Form β}

theorem Offers.many (h : Offers item? F.language) : Spans (many item?) (Form.many F).language := by
  intro T _
  have more : F.language * ((Form.many F).language * T) ≤ (Form.many F).language * T := by
    rw [← mul_assoc]
    exact mul_le_mul_left (Form.mul_many_le F) T
  have item := h _ _ more
  refine (Viable.many item (item.weaken (le_refl _) fun o => ?_)).weaken (le_refl _) fun items => ?_
  · cases o <;> exact le_refl _
  · have done : T ≤ (Form.many F).language * T := by
      intro w mem
      exact Language.append_mem_mul (a := []) (Form.one_le_many F rfl) mem
    cases items <;> exact done

theorem Spans.separated {k : Kind} [Productive F.language] (plain : (⟨k, ""⟩ : Symbol).isPlain = true)
    (h : Spans p F.language) : Spans (separated k p) (Form.separated k F).language := by
  have live : k.isTerminal = false := by
    simp only [Symbol.isPlain, Bool.and_eq_true, Bool.not_eq_true'] at plain
    exact plain.2
  have item : Offers (Parse.after? k p) (Form.mark k *> F).language := by
    rw [language_seqRight, Form.language_mark plain]
    exact .after? live h
  intro T _
  rw [language_separated, mul_assoc]
  exact h.andThen fun _ => item.many.andThen fun _ => .pure _ (le_refl T)

theorem Spans.commaList [Productive F.language] (h : Spans p F.language) :
    Spans (commaList p) (Form.commas F).language :=
  .separated rfl h

theorem Spans.chain {operator : Kind → Option BinaryOp} {p : Parser Expr} {F : Form Expr}
    [Productive F.language] (plain : ∀ k op, operator k = some op → Reads.Single k)
    (h : Spans p F.language) : Spans (chain operator p) (Form.chain operator F).language := by
  have item : Offers (tail? operator p) (Prod.mk <$> Form.oneOf operator <*> F).language := by
    intro T U _ le
    rw [language_seq, language_map, mul_assoc] at le
    refine (Offers.take? plain T _ le).bind fun op => ?_
    cases op with
    | some op => exact h.andThen fun _ => .pure _ (le_refl U)
    | none => exact .pure _ (le_refl T)
  intro T _
  rw [language_chain, mul_assoc]
  exact h.andThen fun _ => item.many.andThen fun _ => .pure _ (le_refl T)

theorem Spans.closed [Productive A] (h : Spans p A) : Spans (closed p) (A * single .rightParen) := by
  intro T _
  rw [mul_assoc]
  exact h.andThen fun _ => (Spans.expect rfl).andThen fun _ => .pure _ (le_refl T)

theorem Spans.enclosed [Productive A] (h : Spans p A) :
    Spans (enclosed p) (single .leftParen * (A * single .rightParen)) := by
  intro T _
  rw [mul_assoc]
  exact (Spans.expect rfl).andThen fun _ => h.closed T

/-- Of two readings that fail the failure found further on is kept, and either of them is viable. -/
theorem Viable.prefer {q : Parser α} (first : Viable T p Q) (second : Viable T q Q) :
    Viable T (prefer p q) Q := by
  intro s complete
  have one := first s complete
  unfold ViableAt at one ⊢
  cases run : p s with
  | ok a t => simpa only [run, prefer_of_ok run] using one
  | error f t =>
      have rewound : (t.restore s.checkpoint).cursor = s.cursor := rfl
      have other := second (t.restore s.checkpoint) complete
      unfold ViableAt at other
      rw [rewound] at other
      rw [run] at one
      simp only [Parse.prefer, run]
      cases run' : q (t.restore s.checkpoint) with
      | ok b u => simpa only [run'] using other
      | error g u =>
          rw [run'] at other
          rcases f.further_eq_or g with ⟨same, _⟩ | ⟨same, _⟩
          · simpa only [same] using one
          · simpa only [same] using other

/-- What is read between parentheses decides what may follow. -/
theorem Viable.parenthesized {query : Parser Statement} {other : Parser β} {U' : Language Symbol}
    [Productive A] [Productive B] [Productive U] [Productive U'] (first : Spans query A) (second : Spans other B)
    (le : single .leftParen * (A * (single .rightParen * U)) ≤ T)
    (le' : single .leftParen * (B * (single .rightParen * U')) ≤ T) :
    Viable T (Parse.parenthesized query other) (Sum.elim (fun _ => U) fun _ => U') := by
  have inside : Viable (single .leftParen * (A * single .rightParen * U + B * single .rightParen * U'))
      (Parse.parenthesized query other) (Sum.elim (fun _ => U) fun _ => U') := by
    refine (Spans.expect rfl).andThen fun _ => .look fun k => ?_
    have queries : Viable (A * single .rightParen * U + B * single .rightParen * U')
        (Sum.inl <$> Parse.closed query : Parser (Statement ⊕ β)) (Sum.elim (fun _ => U) fun _ => U') :=
      .map ((first.closed U).wider le_self_add)
    have others : Viable (A * single .rightParen * U + B * single .rightParen * U')
        (Sum.inr <$> Parse.closed other : Parser (Statement ⊕ β)) (Sum.elim (fun _ => U) fun _ => U') :=
      .map ((second.closed U').wider le_add_self)
    split
    · exact queries.prefer others
    · exact others
  refine inside.wider ?_
  rw [mul_add, mul_assoc, mul_assoc]
  exact fun w mem => mem.elim (fun mem => le mem) fun mem => le' mem

/-- What is read between parentheses as either of two phrases, where the same may follow both. -/
theorem Spans.parenthesized {query : Parser Statement} {other : Parser β} [Productive A] [Productive B]
    (first : Spans query A) (second : Spans other B) :
    Spans (parenthesized query other) (single .leftParen * ((A + B) * single .rightParen)) := by
  intro T _
  simp only [mul_add, add_mul, mul_assoc]
  have readings : Viable (single .leftParen * (A * (single .rightParen * T)) +
      single .leftParen * (B * (single .rightParen * T))) (Parse.parenthesized query other)
      (Sum.elim (fun _ => T) fun _ => T) :=
    .parenthesized first second le_self_add le_add_self
  refine readings.weaken (le_refl _) fun x => ?_
  cases x <;> exact le_refl T

theorem Spans.identifier : Spans identifier Grammar.name.language := by
  intro T _
  rw [Form.language_name]
  refine (Offers.identifier? _ T (le_refl _)).bind fun name => ?_
  cases name with
  | some name => exact .pure name (le_refl T)
  | none =>
      have more : Productive (single .identifier * T) := inferInstance
      exact .unexpected more _

theorem Offers.optionalAlias : Offers optionalAlias Grammar.nameAfterAs.language := by
  intro T U _ le
  rw [Grammar.nameAfterAs, language_or, language_seqRight, language_word, add_mul, mul_assoc] at le
  refine (Viable.eat rfl (le_trans le_self_add le)).bind fun as => ?_
  cases as with
  | true => exact (Spans.identifier U).map
  | false => 
      rw [Form.language_name] at le
      exact Offers.identifier? _ U (le_trans le_add_self le)

theorem Spans.requiredAlias : Spans requiredAlias Grammar.nameAfterAs.language := by
  intro T _
  rw [Grammar.nameAfterAs, language_or, language_seqRight, language_word, add_mul, mul_assoc]
  refine (Viable.eat rfl le_self_add).bind fun as => ?_
  cases as with
  | true => exact Spans.identifier T
  | false =>
      have rest : single .identifier * T ≤ single (.keyword .AS) * (Grammar.name.language * T) +
          Grammar.name.language * T := by
        rw [Form.language_name]
        exact le_add_self
      refine (Offers.identifier? _ T rest).bind fun name => ?_
      cases name with
      | some name => exact .pure name (le_refl T)
      | none =>
          have more : Productive (single (.keyword .AS) * (Grammar.name.language * T) +
            Grammar.name.language * T) := inferInstance
          exact .unexpected more _

theorem Spans.identifierList : Spans identifierList (Form.parens (Form.commas Grammar.name)).language := by
  intro T _
  rw [language_parens, mul_assoc, mul_assoc]
  refine (Spans.expect rfl).andThen fun _ => (Spans.identifier.commaList).andThen fun names =>
    (Viable.eat rfl (le_refl _)).bind fun closes => ?_
  cases closes with
  | true => exact .pure names (le_refl T)
  | false =>
      have more : Productive (single .rightParen * T) := inferInstance
      exact .unexpected more _

theorem Spans.optionalColumns : Spans optionalColumns Grammar.columns.language := by
  intro T _
  rw [Grammar.columns, language_or, language_pure, add_mul, one_mul]
  refine .look fun k => ?_
  split
  · exact (identifierList T).wider le_self_add
  · exact .pure [] le_add_self

end

end Parse

end SelectSyntax
