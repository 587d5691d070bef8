import SelectSyntax.Proofs.Derivation

/-!
Properties of phrases, shown form by form. Where a property of every nonterminal follows for its rule, with
the nonterminals inside the rule taken to have it already, every phrase that is derived has it.
-/

set_option autoImplicit false
set_option relaxedAutoImplicit false

namespace SelectSyntax.Grammar

open Token (Kind Keyword)
open SyntaxTree

/-- A property of phrases: of the number of parameters in front, the word, and the value. -/
abbrev Property (α : Type) := Nat → Word → α → Prop

/-- A property of phrases one after another. -/
inductive Property.Each {α : Type} (P : Property α) : Property (List α) where
  | nil (n : Nat) : Each P n [] []
  | cons {n : Nat} {u v : Word} {a : α} {items : List α} (first : P n u a)
      (rest : Each P (n + u.questions) v items) : Each P n (u ++ v) (a :: items)

theorem Property.Each.forall_mem {α : Type} {P : α → Prop} {n : Nat} {w : Word} {items : List α}
    (h : Property.Each (fun _ _ a => P a) n w items) : ∀ a ∈ items, P a := by
  induction h with
  | nil => simp
  | cons first _ ih => exact List.forall_mem_cons.mpr ⟨first, ih⟩

/-- All phrases of a form have a property, given a property of each nonterminal. -/
inductive Meets (allows : Allows) (known : (X : Nonterminal) → Property X.Result) :
    {α : Type} → Form α → Property α → Prop where
  | empty {α : Type} {a : α} {Q : Property α} (h : ∀ n, Q n [] a) : Meets allows known (.empty a) Q
  | symbol {α : Type} {read : Symbol → Option α} {Q : Property α}
      (h : ∀ n s a, s.isPlain = true → read s = some a → Q n [s] a) :
      Meets allows known (.symbol read) Q
  | parameter {α : Type} {f : Nat → α} {Q : Property α}
      (h : ∀ n text, Q n [⟨.question, text⟩] (f (n + 1))) : Meets allows known (.parameter f) Q
  | nonterminal {α : Type} {X : Nonterminal} {f : X.Result → α} {Q : Property α}
      (h : ∀ n w a, known X n w a → Q n w (f a)) : Meets allows known (.nonterminal X f) Q
  | sequence {α β : Type} {F : Form (β → α)} {H : Form β} {P : Property (β → α)} {R : Property β}
      {Q : Property α} (first : Meets allows known F P) (second : Meets allows known H R)
      (h : ∀ n u v f b, P n u f → R (n + u.questions) v b → Q n (u ++ v) (f b)) :
      Meets allows known (.sequence F H) Q
  | choice {α : Type} {F H : Form α} {Q : Property α} (first : Meets allows known F Q)
      (second : Meets allows known H Q) : Meets allows known (.choice F H) Q
  | repeated {α β : Type} {F : Form β} {f : List β → α} {P : Property β} {Q : Property α}
      (item : Meets allows known F P) (h : ∀ n w items, P.Each n w items → Q n w (f items)) :
      Meets allows known (.repeated F f) Q
  | parens {α : Type} {F : Form α} {P Q : Property α} (inside : Meets allows known F P)
      (h : ∀ n w a opening closing, P n w a →
        Q n (⟨.leftParen, opening⟩ :: (w ++ [⟨.rightParen, closing⟩])) a) :
      Meets allows known (.parens F) Q
  | prefer {α β γ : Type} {F : Form β} {H : Form γ} {f : β ⊕ γ → α} {P : Property β} {R : Property γ}
      {Q : Property α} (first : Meets allows known F P) (second : Meets allows known H R)
      (h : ∀ n w b opening closing, P n w b →
        Q n (⟨.leftParen, opening⟩ :: (w ++ [⟨.rightParen, closing⟩])) (f (.inl b)))
      (h' : ∀ n w c opening closing, allows β F n w → Derives allows H n w c → R n w c →
        Q n (⟨.leftParen, opening⟩ :: (w ++ [⟨.rightParen, closing⟩])) (f (.inr c))) :
      Meets allows known (.prefer F H f) Q

namespace Meets

variable {allows : Allows} {known : (X : Nonterminal) → Property X.Result} {α β γ : Type}

theorem weaken {F : Form α} {P Q : Property α} (h : Meets allows known F P)
    (weaker : ∀ n w a, P n w a → Q n w a) : Meets allows known F Q := by
  induction h with
  | empty h => exact .empty fun n => weaker _ _ _ (h n)
  | symbol h => exact .symbol fun n s a plain value => weaker _ _ _ (h n s a plain value)
  | parameter h => exact .parameter fun n text => weaker _ _ _ (h n text)
  | nonterminal h => exact .nonterminal fun n w a met => weaker _ _ _ (h n w a met)
  | sequence first second h =>
      exact .sequence first second fun n u v f b met met' => weaker _ _ _ (h n u v f b met met')
  | choice _ _ first second => exact .choice (first weaker) (second weaker)
  | repeated item h => exact .repeated item fun n w items met => weaker _ _ _ (h n w items met)
  | parens inside h =>
      exact .parens inside fun n w a opening closing met => weaker _ _ _ (h n w a opening closing met)
  | prefer first second h h' =>
      exact .prefer first second (fun n w b opening closing met => weaker _ _ _ (h n w b opening closing met))
        fun n w c opening closing permitted derives met =>
          weaker _ _ _ (h' n w c opening closing permitted derives met)

theorem map {f : β → α} {F : Form β} {Q : Property α}
    (h : Meets allows known F fun n w b => Q n w (f b)) : Meets allows known (f <$> F) Q := by
  have all : Meets allows known ((pure f : Form (β → α)) <*> F) Q := by
    refine .sequence (P := fun _ u g => u = [] ∧ g = f) (.empty fun _ => ⟨rfl, rfl⟩) h ?_
    rintro n u v g b ⟨rfl, rfl⟩ met
    exact met
  exact all

theorem seq {F : Form (β → α)} {H : Form β} {R : Property β} {Q : Property α}
    (second : Meets allows known H R)
    (first : Meets allows known F fun n u f => ∀ v b, R (n + u.questions) v b → Q n (u ++ v) (f b)) :
    Meets allows known (F <*> H) Q :=
  .sequence first second fun _ _ _ _ _ met met' => met _ _ met'

theorem seqLeft {F : Form α} {H : Form β} {R : Property β} {Q : Property α}
    (second : Meets allows known H R)
    (first : Meets allows known F fun n u a => ∀ v b, R (n + u.questions) v b → Q n (u ++ v) a) :
    Meets allows known (F <* H) Q :=
  show Meets allows known (Function.const β <$> F <*> H) Q from .seq second (.map first)

theorem seqRight {F : Form β} {H : Form α} {R : Property α} {Q : Property α}
    (second : Meets allows known H R)
    (first : Meets allows known F fun n u _ => ∀ v a, R (n + u.questions) v a → Q n (u ++ v) a) :
    Meets allows known (F *> H) Q :=
  show Meets allows known (Function.const β id <$> F <*> H) Q from .seq second (.map first)

theorem or {F H : Form α} {Q : Property α} (first : Meets allows known F Q)
    (second : Meets allows known H Q) : Meets allows known (F <|> H) Q :=
  .choice first second

theorem pure {a : α} {Q : Property α} (h : ∀ n, Q n [] a) : Meets allows known (pure a : Form α) Q :=
  .empty h

theorem construct {e : Parse.Entry} {Q : Property e.Result}
    (h : ∀ n w a, known (.construct e) n w a → Q n w a) : Meets allows known (Form.construct e) Q :=
  .nonterminal h

theorem row {Q : Property Expr} (h : ∀ n w a, known .row n w a → Q n w a) :
    Meets allows known Form.row Q :=
  .nonterminal h

theorem text {k : Kind} {Q : Property String} (h : ∀ n t, Q n [⟨k, t⟩] t) :
    Meets allows known (Form.text k) Q := by
  refine .symbol fun n s a _ value => ?_
  obtain ⟨rfl, same⟩ := Option.ite_none_right_eq_some.mp value
  cases same
  exact h n _

theorem mark {k : Kind} {Q : Property Unit} (h : ∀ n t, Q n [⟨k, t⟩] ()) :
    Meets allows known (Form.mark k) Q := by
  refine .symbol fun n s a _ value => ?_
  obtain ⟨rfl, _⟩ := Option.ite_none_right_eq_some.mp value
  exact h n _

theorem oneOf {read : Kind → Option α} {Q : Property α}
    (h : ∀ n (s : Symbol) a, read s.kind = some a → Q n [s] a) :
    Meets allows known (Form.oneOf read) Q :=
  .symbol fun n s a _ value => h n s a value

theorem flag {k : Keyword} {Q : Property Bool} (there : ∀ n t, Q n [⟨.keyword k, t⟩] true)
    (missing : ∀ n, Q n [] false) : Meets allows known (Form.flag k) Q :=
  .or (.map (.mark there)) (.pure missing)

theorem many {F : Form α} {P : Property α} (item : Meets allows known F P) :
    Meets allows known (Form.many F) P.Each :=
  .repeated item fun _ _ _ met => met

/-- What holds of one item and goes on from item to item holds of a list with marks in between. -/
theorem separated {k : Kind} {F : Form α} {P : Property α} {Q : Property (List α)}
    (item : Meets allows known F P) (one : ∀ n u a, P n u a → Q n u [a])
    (next : ∀ n u t v items a, Q n u items → P (n + (u ++ [⟨k, t⟩] : Word).questions) v a →
      Q n (u ++ ⟨k, t⟩ :: v) (items ++ [a])) :
    Meets allows known (Form.separated k F) Q := by
  have marked : Meets allows known (Form.mark k *> F) fun n w a =>
      ∃ t v, w = ⟨k, t⟩ :: v ∧ P (n + Word.questions [⟨k, t⟩]) v a :=
    .seqRight item (.mark fun n t v a met => ⟨t, v, rfl, met⟩)
  refine .seq (.many marked) (.map (item.weaken fun n u a met v items all => ?_))
  suffices general : ∀ {m v rest}, Property.Each _ m v rest → ∀ {u items}, n + Word.questions u = m →
      Q n u items → Q n (u ++ v) (items ++ rest) from general all rfl (one n u a met)
  clear all met
  intro m v rest all
  induction all with
  | nil => simp
  | cons marked _ ih =>
      rintro u items rfl front
      obtain ⟨t, v, rfl, met⟩ := marked
      have whole := next n u t v items _ front (by rwa [Word.questions_append, ← Nat.add_assoc])
      simpa using ih (by rw [Word.questions_append, Nat.add_assoc]) whole

/-- What holds of the first operand and goes on from operand to operand holds of all of them together. -/
theorem fold {F : Form α} {G : Form β} {step : α → β → α} {Q : Property α} {R : Property β}
    (first : Meets allows known F Q) (next : Meets allows known G R)
    (goes : ∀ n u v a b, Q n u a → R (n + u.questions) v b → Q n (u ++ v) (step a b)) :
    Meets allows known ((fun first rest => List.foldl step first rest) <$> F <*> Form.many G) Q := by
  refine .seq (.many next) (.map (first.weaken fun n u a met v items all => ?_))
  generalize start : n + u.questions = m at all
  induction all generalizing u a with
  | nil => simpa using met
  | @cons m x y b items item _ ih =>
      subst start
      rw [← List.append_assoc]
      exact ih (u ++ x) _ (goes n u x a b met item) (by rw [Word.questions_append, Nat.add_assoc])

/-- What follows for the rule of every nonterminal holds of every phrase. -/
theorem holds (closed : ∀ X, Meets allows known (rules X) (known X)) {F : Form α} {Q : Property α}
    {n : Nat} {w : Word} {a : α} (h : Meets allows known F Q) (derives : Derives allows F n w a) :
    Q n w a := by
  induction derives with
  | empty =>
      cases h with
      | empty h => exact h _
  | symbol plain value =>
      cases h with
      | symbol h => exact h _ _ _ plain value
  | parameter =>
      cases h with
      | parameter h => exact h _ _
  | nonterminal _ ih =>
      cases h with
      | nonterminal h => exact h _ _ _ (ih (closed _))
  | sequence _ _ ih ih' =>
      cases h with
      | sequence first second h => exact h _ _ _ _ _ (ih first) (ih' second)
  | left _ ih =>
      cases h with
      | choice first _ => exact ih first
  | right _ ih =>
      cases h with
      | choice _ second => exact ih second
  | none =>
      cases h with
      | repeated _ h => exact h _ _ _ (.nil _)
  | @more _ _ _ _ n u _ _ _ _ _ ih ih' =>
      cases h with
      | repeated item h =>
          -- the phrases that follow come after `u`, which is fixed here
          refine ih' (Q := fun m v a => m = n + u.questions → Q n (u ++ v) a)
            (.repeated item fun m v items met start => ?_) rfl
          subst start
          exact h _ _ _ (.cons (ih item) met)
  | parens _ ih =>
      cases h with
      | parens inside h => exact h _ _ _ _ _ (ih inside)
  | preferred _ ih =>
      cases h with
      | prefer first _ h _ => exact h _ _ _ _ _ (ih first)
  | other allowed derives ih =>
      cases h with
      | prefer _ second _ h => exact h _ _ _ _ _ allowed derives (ih second)

end Meets

end SelectSyntax.Grammar
