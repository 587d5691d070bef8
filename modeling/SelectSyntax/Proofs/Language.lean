import Mathlib.Computability.Language
import Mathlib.Order.CompletePartialOrder
import SelectSyntax.Proofs.Phrases

/-!
The languages of forms, whatever their phrases stand for. The language of a form that is built from others is
the sum or the product of their languages; in every phrase a point has a name or a star after it.
-/

set_option autoImplicit false
set_option relaxedAutoImplicit false

namespace SelectSyntax.Grammar

open Token (Kind Keyword)
open SyntaxTree

/-- What is derived is derived with any number of parameters in front. -/
theorem Derives.renumber {α : Type} {F : Form α} {n : Nat} {w : Word} {a : α}
    (h : Derives anyReading F n w a) (m : Nat) : ∃ b, Derives anyReading F m w b := by
  induction h generalizing m with
  | empty a => exact ⟨a, .empty a⟩
  | symbol plain value => exact ⟨_, .symbol plain value⟩
  | parameter => exact ⟨_, .parameter⟩
  | nonterminal _ ih =>
      obtain ⟨b, h⟩ := ih m
      exact ⟨_, .nonterminal h⟩
  | sequence _ _ ih₁ ih₂ =>
      obtain ⟨f, first⟩ := ih₁ m
      obtain ⟨b, second⟩ := ih₂ _
      exact ⟨f b, .sequence first second⟩
  | left _ ih =>
      obtain ⟨b, h⟩ := ih m
      exact ⟨b, .left h⟩
  | right _ ih =>
      obtain ⟨b, h⟩ := ih m
      exact ⟨b, .right h⟩
  | none => exact ⟨_, .none⟩
  | more _ _ ih₁ ih₂ =>
      obtain ⟨b, first⟩ := ih₁ m
      obtain ⟨_, rest⟩ := ih₂ _
      obtain ⟨items, _, all⟩ := Derives.repeated_values rest
      exact ⟨_, .more first (all _)⟩
  | parens _ ih =>
      obtain ⟨b, h⟩ := ih m
      exact ⟨b, .parens h⟩
  | preferred _ ih =>
      obtain ⟨b, h⟩ := ih m
      exact ⟨_, .preferred h⟩
  | other _ _ ih =>
      obtain ⟨c, h⟩ := ih m
      exact ⟨_, .other trivial h⟩

end SelectSyntax.Grammar

namespace SelectSyntax

open Grammar (Derives anyReading rules)
open Token (Kind Keyword)
open SyntaxTree (BinaryOp Body Expr SetOp Statement)

def Form.language {α : Type} (F : Form α) : Language Symbol :=
  {w | ∃ n a, Derives anyReading F n w a}

def Word.single (k : Kind) : Language Symbol := {w | ∃ text, w = [⟨k, text⟩]}

namespace Form

variable {α β γ : Type}

theorem mem_language {F : Form α} {w : Word} :
    w ∈ F.language ↔ ∃ n a, Derives anyReading F n w a := Iff.rfl

theorem language_pure (a : α) : (pure a : Form α).language = 1 := by
  ext w
  simp [mem_language, Derives.pure_iff]

theorem language_map (f : β → α) (F : Form β) : (f <$> F).language = F.language := by
  ext w
  simp only [mem_language, Derives.map_iff]
  constructor
  · rintro ⟨n, _, b, h, _⟩
    exact ⟨n, b, h⟩
  · rintro ⟨n, b, h⟩
    exact ⟨n, _, b, h, rfl⟩

theorem language_seq (F : Form (β → α)) (H : Form β) :
    (F <*> H).language = F.language * H.language := by
  ext w
  simp only [mem_language, Derives.seq_iff, Language.mem_mul]
  constructor
  · rintro ⟨n, _, u, v, f, b, rfl, first, second, _⟩
    exact ⟨u, ⟨n, f, first⟩, v, ⟨_, b, second⟩, rfl⟩
  · rintro ⟨u, ⟨n, f, first⟩, v, ⟨m, b, second⟩, rfl⟩
    obtain ⟨b, second⟩ := second.renumber (n + Word.questions u)
    exact ⟨n, _, u, v, f, b, rfl, first, second, rfl⟩

theorem language_seqLeft (F : Form α) (H : Form β) :
    (F <* H).language = F.language * H.language := by
  show (Function.const β <$> F <*> H).language = _
  rw [language_seq, language_map]

theorem language_seqRight (F : Form β) (H : Form α) :
    (F *> H).language = F.language * H.language := by
  show (Function.const β id <$> F <*> H).language = _
  rw [language_seq, language_map]

theorem language_or (F H : Form α) : (F <|> H).language = F.language + H.language := by
  ext w
  simp only [mem_language, Derives.or_iff, Language.mem_add]
  constructor
  · rintro ⟨n, a, h | h⟩
    · exact Or.inl ⟨n, a, h⟩
    · exact Or.inr ⟨n, a, h⟩
  · rintro (⟨n, a, h⟩ | ⟨n, a, h⟩)
    · exact ⟨n, a, Or.inl h⟩
    · exact ⟨n, a, Or.inr h⟩

theorem language_construct (e : Parse.Entry) :
    (construct e).language = (rules (.construct e)).language := by
  ext w
  simp only [mem_language, Derives.construct_iff]

theorem language_row : row.language = Grammar.sum.language := by
  ext w
  simp only [mem_language, Derives.row_iff]

theorem language_parameter (f : Nat → α) : (parameter f).language = Word.single .question := by
  ext w
  simp only [mem_language, Derives.parameter_iff]
  constructor
  · rintro ⟨n, _, text, rfl, _⟩
    exact ⟨text, rfl⟩
  · rintro ⟨text, rfl⟩
    exact ⟨0, _, text, rfl, rfl⟩

theorem language_mark {k : Kind} (plain : (⟨k, ""⟩ : Symbol).isPlain = true) :
    (mark k).language = Word.single k := by
  ext w
  simp only [mem_language, Derives.mark_iff]
  constructor
  · rintro ⟨n, _, text, rfl, _⟩
    exact ⟨text, rfl⟩
  · rintro ⟨text, rfl⟩
    exact ⟨0, (), text, rfl, plain⟩

theorem language_word (k : Keyword) : (word k).language = Word.single (.keyword k) :=
  language_mark rfl

theorem language_text {k : Kind} (plain : (⟨k, ""⟩ : Symbol).isPlain = true) :
    (text k).language = Word.single k := by
  ext w
  simp only [mem_language, Derives.text_iff]
  constructor
  · rintro ⟨n, t, rfl, _⟩
    exact ⟨t, rfl⟩
  · rintro ⟨t, rfl⟩
    exact ⟨0, t, rfl, plain⟩

theorem language_name : Grammar.name.language = Word.single .identifier := language_text rfl

theorem single_le_oneOf {read : Kind → Option α} {k : Kind} {a : α} (value : read k = some a)
    (plain : (⟨k, ""⟩ : Symbol).isPlain = true) : Word.single k ≤ (oneOf read).language := by
  rintro _ ⟨text, rfl⟩
  exact ⟨0, a, Derives.oneOf_iff.mpr ⟨_, rfl, plain, value⟩⟩

theorem language_parens (F : Form α) : (parens F).language =
    Word.single .leftParen * (F.language * Word.single .rightParen) := by
  ext w
  simp only [mem_language, Derives.parens_iff, Language.mem_mul]
  constructor
  · rintro ⟨n, a, opening, closing, v, rfl, h⟩
    exact ⟨_, ⟨opening, rfl⟩, _, ⟨v, ⟨n, a, h⟩, _, ⟨closing, rfl⟩, rfl⟩, rfl⟩
  · rintro ⟨_, ⟨opening, rfl⟩, _, ⟨v, ⟨n, a, h⟩, _, ⟨closing, rfl⟩, rfl⟩, rfl⟩
    exact ⟨n, a, opening, closing, v, rfl, h⟩

theorem language_prefer (F : Form β) (H : Form γ) (f : β ⊕ γ → α) : (Form.prefer F H f).language =
    Word.single .leftParen * ((F.language + H.language) * Word.single .rightParen) := by
  ext w
  simp only [mem_language, Derives.prefer_iff, Language.mem_mul, Language.mem_add]
  constructor
  · rintro ⟨n, _, opening, closing, v, rfl, ⟨b, h, _⟩ | ⟨c, _, h, _⟩⟩
    · exact ⟨_, ⟨opening, rfl⟩, _, ⟨v, Or.inl ⟨n, b, h⟩, _, ⟨closing, rfl⟩, rfl⟩, rfl⟩
    · exact ⟨_, ⟨opening, rfl⟩, _, ⟨v, Or.inr ⟨n, c, h⟩, _, ⟨closing, rfl⟩, rfl⟩, rfl⟩
  · rintro ⟨_, ⟨opening, rfl⟩, _, ⟨v, ⟨n, b, h⟩ | ⟨n, c, h⟩, _, ⟨closing, rfl⟩, rfl⟩, rfl⟩
    · exact ⟨n, _, opening, closing, v, rfl, Or.inl ⟨b, h, rfl⟩⟩
    · exact ⟨n, _, opening, closing, v, rfl, Or.inr ⟨c, trivial, h, rfl⟩⟩

theorem one_le_many (F : Form α) : 1 ≤ (many F).language := by
  rintro w (rfl : w = [])
  exact ⟨0, [], Derives.many_nil_iff.mpr rfl⟩

theorem mul_many_le (F : Form α) : F.language * (many F).language ≤ (many F).language := by
  rintro _ ⟨u, ⟨n, a, first⟩, v, ⟨m, items, rest⟩, rfl⟩
  obtain ⟨items, rest⟩ := rest.renumber (n + Word.questions u)
  exact ⟨n, a :: items, Derives.many_cons_iff.mpr ⟨u, v, rfl, first, rest⟩⟩

theorem le_mul_many (F : Form α) (A : Language Symbol) : A ≤ A * (many F).language := by
  intro w mem
  rw [← List.append_nil w]
  exact Language.append_mem_mul mem (one_le_many F rfl)

theorem language_optional (F : Form α) : (optional F).language = F.language + 1 := by
  rw [optional, language_or, language_map, language_pure]

theorem language_flag (k : Keyword) : (flag k).language = Word.single (.keyword k) + 1 := by
  rw [flag, language_or, language_map, language_word, language_pure]

theorem language_separated (k : Kind) (F : Form α) :
    (separated k F).language = F.language * (many (mark k *> F)).language := by
  rw [separated, language_seq, language_map]

theorem language_chain (operator : Kind → Option BinaryOp) (F : Form Expr) :
    (chain operator F).language = F.language * (many (Prod.mk <$> oneOf operator <*> F)).language := by
  rw [chain, language_seq, language_map]

theorem le_chain (operator : Kind → Option BinaryOp) (F : Form Expr) :
    F.language ≤ (chain operator F).language := by
  rw [language_chain]
  exact le_mul_many _ _

theorem language_setChain (operator : Kind → Option SetOp) (F : Form Body) :
    (Grammar.setChain operator F).language = F.language * (many ((fun op quantifier right =>
      (op, quantifier, right)) <$> oneOf operator <*> Grammar.setQuantifier <*> F)).language := by
  rw [Grammar.setChain, language_seq, language_map]

theorem le_setChain (operator : Kind → Option SetOp) (F : Form Body) :
    F.language ≤ (Grammar.setChain operator F).language := by
  rw [language_setChain]
  exact le_mul_many _ _

theorem le_separated (k : Kind) (F : Form α) : F.language ≤ (separated k F).language := by
  rw [language_separated]
  exact le_mul_many _ _

end Form

def Word.Dotted : Word → Prop
  | [] => True
  | s :: w => (s.kind = .dot → ∃ t v, w = t :: v ∧ (t.kind = .identifier ∨ t.kind = .star)) ∧
      Word.Dotted w

theorem Word.Dotted.append {u v : Word} (first : Word.Dotted u) (second : Word.Dotted v) :
    Word.Dotted (u ++ v) := by
  induction u with
  | nil => exact second
  | cons s u ih =>
      refine ⟨fun point => ?_, ih first.2⟩
      obtain ⟨t, w, rfl, after⟩ := first.1 point
      exact ⟨t, w ++ v, rfl, after⟩

theorem Word.Dotted.single {s : Symbol} (other : s.kind ≠ .dot) : Word.Dotted [s] :=
  ⟨fun point => absurd point other, trivial⟩

namespace Grammar

open Form

/-- Forms in all of whose phrases every point has a name or a star after it, if that is so in the phrases of
every nonterminal. -/
abbrev Points {α : Type} (F : Form α) : Prop :=
  Meets anyReading (fun _ _ w _ => Word.Dotted w) F fun _ w _ => Word.Dotted w

namespace Points

variable {α β γ : Type}

private theorem pure (a : α) : Points (Pure.pure a : Form α) :=
  Meets.pure fun _ => trivial

private theorem map (f : β → α) {F : Form β} (h : Points F) : Points (f <$> F) := Meets.map h

private theorem seq {F : Form (β → α)} {H : Form β} (first : Points F) (second : Points H) :
    Points (F <*> H) :=
  Meets.seq second (Meets.weaken first fun _ _ _ met _ _ met' => met.append met')

private theorem seqLeft {F : Form α} {H : Form β} (first : Points F) (second : Points H) :
    Points (F <* H) :=
  Meets.seqLeft second (Meets.weaken first fun _ _ _ met _ _ met' => met.append met')

private theorem seqRight {F : Form β} {H : Form α} (first : Points F) (second : Points H) :
    Points (F *> H) :=
  Meets.seqRight second (Meets.weaken first fun _ _ _ met _ _ met' => met.append met')

private theorem or {F H : Form α} (first : Points F) (second : Points H) : Points (F <|> H) :=
  Meets.or first second

private theorem construct (e : Parse.Entry) : Points (Form.construct e) :=
  Meets.construct fun _ _ _ => id

private theorem row : Points Form.row := Meets.row fun _ _ _ => id

private theorem text {k : Kind} (other : k ≠ .dot) : Points (Form.text k) :=
  Meets.text fun _ _ => .single other

private theorem mark {k : Kind} (other : k ≠ .dot) : Points (Form.mark k) :=
  Meets.mark fun _ _ => .single other

private theorem word (k : Keyword) : Points (Form.word k) := mark (by simp)

private theorem oneOf {read : Kind → Option α} (none_ : read .dot = none) : Points (Form.oneOf read) :=
  Meets.oneOf fun _ s a value => .single fun point => by simp [point, none_] at value

private theorem optional {F : Form α} (h : Points F) : Points (Form.optional F) := .or (.map _ h) (.pure _)

private theorem flag (k : Keyword) : Points (Form.flag k) := .or (.map _ (.word k)) (.pure _)

private theorem many {F : Form α} (h : Points F) : Points (Form.many F) := by
  refine (Meets.many h).weaken fun _ w items all => ?_
  induction all with
  | nil => exact trivial
  | cons first _ ih => exact first.append ih

private theorem separated {k : Kind} (other : k ≠ .dot) {F : Form α} (h : Points F) :
    Points (Form.separated k F) :=
  .seq (.map _ h) (.many (.seqRight (.mark other) h))

private theorem commas {F : Form α} (h : Points F) : Points (Form.commas F) := .separated (by simp) h

private theorem chain {operator : Kind → Option BinaryOp} (none_ : operator .dot = none) {F : Form Expr}
    (h : Points F) : Points (Form.chain operator F) :=
  .seq (.map _ h) (.many (.seq (.map _ (.oneOf none_)) h))

private theorem enclosed {w : Word} (h : Word.Dotted w) (opening closing : String) :
    Word.Dotted (⟨.leftParen, opening⟩ :: (w ++ [⟨.rightParen, closing⟩])) :=
  ⟨by simp, h.append (.single (by simp))⟩

private theorem parens {F : Form α} (h : Points F) : Points (Form.parens F) :=
  Meets.parens h fun _ _ _ opening closing met => enclosed met opening closing

private theorem prefer {F : Form β} {H : Form γ} {f : β ⊕ γ → α} (first : Points F) (second : Points H) :
    Points (Form.prefer F H f) :=
  Meets.prefer first second (fun _ _ _ opening closing met => enclosed met opening closing)
    fun _ _ _ opening closing _ _ met => enclosed met opening closing

private theorem name : Points Grammar.name := .text (by simp)

private theorem path : Points Grammar.path := by
  have names : Meets anyReading (fun _ _ w _ => Word.Dotted w) Grammar.name
      fun _ w (_ : String) => ∃ text, w = [⟨.identifier, text⟩] :=
    Meets.text fun _ t => ⟨t, rfl⟩
  refine Meets.separated names (fun _ u _ met => ?_) fun _ u t v _ _ front met => ?_
  · obtain ⟨text, rfl⟩ := met
    exact .single (by simp)
  · obtain ⟨text, rfl⟩ := met
    exact front.append ⟨fun _ => ⟨_, [], rfl, Or.inl rfl⟩, .single (by simp)⟩

private theorem column : Points Grammar.column := by
  have names : Meets anyReading (fun _ _ w _ => Word.Dotted w) (Grammar.name <* Form.mark .dot)
      fun _ w (_ : String) => ∃ text point, w = [⟨.identifier, text⟩, ⟨.dot, point⟩] :=
    Meets.seqLeft (Meets.mark (Q := fun _ w _ => ∃ point, w = [⟨.dot, point⟩]) fun _ t => ⟨t, rfl⟩)
      (Meets.text fun _ text _ _ => by rintro ⟨point, rfl⟩; exact ⟨text, point, rfl⟩)
  have starred : Points ((fun names => Expr.column names true) <$>
      Form.many (Grammar.name <* Form.mark .dot) <* Form.mark .star) := by
    refine Meets.seqLeft (Meets.mark (Q := fun _ w _ => ∃ text, w = [⟨.star, text⟩]) fun _ t => ⟨t, rfl⟩)
      (Meets.map ((Meets.many names).weaken fun _ w items all v _ => ?_))
    rintro ⟨text, rfl⟩
    -- after each point comes the next name, or the star
    suffices general : Word.Dotted (w ++ [⟨.star, text⟩]) ∧
        ∃ t v, w ++ [⟨.star, text⟩] = t :: v ∧ (t.kind = .identifier ∨ t.kind = .star) from general.1
    induction all with
    | nil => exact ⟨.single (by simp), _, [], rfl, Or.inr rfl⟩
    | cons first _ ih =>
        obtain ⟨name, point, rfl⟩ := first
        exact ⟨⟨by simp, fun _ => ih.2, ih.1⟩, _, _, rfl, Or.inl rfl⟩
  exact .or starred (.map _ path)

private theorem nameAfterAs : Points Grammar.nameAfterAs := .or (.seqRight (.word _) name) name

private theorem columns : Points Grammar.columns := .or (.parens (.commas name)) (.pure _)

private theorem conditions : Points Grammar.conditions := .commas (.construct _)

private theorem arguments : Points Grammar.arguments := .parens (.or conditions (.pure _))

private theorem functionWord : Points Grammar.functionWord := by
  refine Meets.symbol fun _ s a _ value => .single fun point => ?_
  simp [point] at value

private theorem call : Points Grammar.call :=
  .seq (.map _ (.or path (.map _ functionWord))) arguments

private theorem case : Points Grammar.case := by
  have branch : Points Grammar.case.branch :=
    .seq (.map _ (.seqRight (.word _) (.construct _))) (.seqRight (.word _) (.construct _))
  exact .seqLeft (.seq (.seq (.seq (.map _ (.seqRight (.word _) (.optional row))) branch)
    (.many branch)) (.optional (.seqRight (.word _) (.construct _)))) (.word _)

private theorem literal : Points Grammar.literal :=
  .or (.map _ (.text (by simp))) (.or (.map _ (.text (by simp)))
    (.or (.map _ (.word _)) (.or (.map _ (.word _)) (.map _ (.word _)))))

private theorem signed : Points Grammar.signed :=
  .or (.map _ (.seqRight (.mark (by simp)) (.construct _)))
    (.map _ (.seqRight (.mark (by simp)) (.construct _)))

private theorem primary : Points Grammar.primary :=
  .or literal (.or (Meets.parameter fun _ _ => .single (by simp)) (.or signed (.or case (.or column
    (.or call (.prefer (.construct _) conditions))))))

private theorem sum : Points Grammar.sum := .chain rfl (.chain rfl (.chain rfl primary))

private theorem predicate : Points Grammar.predicate := by
  have comparison : Points Grammar.comparisonEnd :=
    .or (.seq (.map _ (.oneOf rfl)) row) (.seq (.seq (.map _ (.oneOf rfl)) (.oneOf rfl)) (.parens (.construct _)))
  have null : Points Grammar.nullEnd := .seqLeft (.map _ (.seqRight (.word _) (.flag _))) (.word _)
  have between : Points Grammar.betweenEnd :=
    .seq (.seq (.map _ (.flag _)) (.seqRight (.word _) row)) (.seqRight (.word _) row)
  have in_ : Points Grammar.inEnd :=
    .seq (.map _ (.flag _)) (.seqRight (.word _) (.prefer (.construct _) conditions))
  have like : Points Grammar.likeEnd :=
    .seq (.seq (.map _ (.flag _)) (.seqRight (.word _) row)) (.optional (.seqRight (.word _) row))
  exact .or (.map _ (.seqRight (.word _) (.parens (.construct _)))) (.seq (.map _ row)
    (.or comparison (.or null (.or between (.or in_ (.or like (.pure _)))))))

private theorem truthTest : Points Grammar.truthTest :=
  .seq (.map _ predicate) (.or (.seq (.map _ (.seqRight (.word _) (.flag _))) (.oneOf rfl)) (.pure _))

private theorem negation : Points Grammar.negation :=
  .or (.map _ (.seqRight (.word _) (.construct _))) truthTest

private theorem condition : Points Grammar.condition := .chain rfl (.chain rfl negation)

private theorem joinSide : Points Grammar.joinSide :=
  .or (.map _ (.word _)) (.or (.map _ (.seqRight (.word _) (.flag _)))
    (.or (.map _ (.seqRight (.word _) (.flag _))) (.or (.map _ (.seqRight (.word _) (.flag _))) (.pure _))))

private theorem tablePrimary : Points Grammar.tablePrimary :=
  .or (.seq (.map _ path) (.optional nameAfterAs))
    (.or (.seq (.seq (.map _ (.parens (.construct _))) nameAfterAs) columns) (.parens (.construct _)))

private theorem table : Points Grammar.table := by
  have conditioned : Points Grammar.conditionedJoin := .seqLeft (.map _ joinSide) (.word _)
  have plain : Points Grammar.plainJoin :=
    .or (.map _ (.seqRight (.word _) (.word _)))
      (.seqLeft (.map _ (.seqRight (.word _) joinSide)) (.word _))
  have join : Points Grammar.joinEnd :=
    .or (.seq (.seq (.map _ conditioned) tablePrimary) (.seqRight (.word _) (.construct _)))
      (.seq (.map _ plain) tablePrimary)
  exact .seq (.map _ tablePrimary) (.many join)

private theorem setQuantifier : Points Grammar.setQuantifier := .or (.oneOf rfl) (.pure _)

private theorem selectBlock : Points Grammar.selectBlock := by
  have projection : Points Grammar.projection := .seq (.map _ row) (.optional nameAfterAs)
  have tables : Points Grammar.tables := .or (.seqRight (.word _) (.commas (.construct _))) (.pure _)
  have grouping : Points Grammar.grouping :=
    .seq (.map _ (.seqRight (.seqRight (.word _) (.word _)) setQuantifier)) (.commas row)
  have clause : ∀ k, Points (Form.optional (Form.word k *> Form.construct .condition)) := fun k =>
    .optional (.seqRight (.word k) (.construct _))
  exact .seq (.seq (.seq (.seq (.seq (.map _ (.seqRight (.word _) setQuantifier)) (.commas projection))
    tables) (clause _)) (.optional grouping)) (clause _)

private theorem setChain {operator : Kind → Option SetOp} (none_ : operator .dot = none) {F : Form Body}
    (h : Points F) : Points (Grammar.setChain operator F) :=
  .seq (.map _ h) (.many (.seq (.seq (.map _ (.oneOf none_)) setQuantifier) h))

private theorem body : Points Grammar.body :=
  setChain rfl (setChain rfl (.or (.map _ selectBlock) (.parens (.construct _))))

private theorem query : Points Grammar.query := by
  have namedQuery : Points Grammar.namedQuery :=
    .seq (.seq (.map _ name) columns) (.seqRight (.word _) (.parens (.construct _)))
  have withClause : Points Grammar.withClause :=
    .seq (.map _ (.seqRight (.word _) (.flag _))) (.commas namedQuery)
  have orderItem : Points Grammar.orderItem := .seq (.map _ row) (.or (.oneOf rfl) (.pure _))
  have orderBy : Points Grammar.orderBy :=
    .or (.seqRight (.seqRight (.word _) (.word _)) (.commas orderItem)) (.pure _)
  exact .seq (.seq (.map _ (.optional withClause)) body) orderBy

private theorem rules (X : Nonterminal) : Points (Grammar.rules X) := by
  match X with
  | .construct .query => exact query
  | .construct .body => exact body
  | .construct .condition => exact condition
  | .construct .negated => exact negation
  | .construct .signed => exact primary
  | .construct .table => exact table
  | .row => exact sum

end Points

theorem dotted_of_script {n : Nat} {w : Word} {q : Statement} (h : Derives anyReading script n w q) :
    Word.Dotted w :=
  Meets.holds Points.rules (.seqLeft (.construct _) (.optional (.mark (by simp))) : Points script) h

end Grammar

end SelectSyntax
