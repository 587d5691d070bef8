import SelectSyntax.Proofs.Grammar

/-!
Derivations taken apart: what a derivation of each kind of form is made of. Parentheses match in every
derived word, and a word that is derived at all is derived with first readings preferred.
-/

set_option autoImplicit false
set_option relaxedAutoImplicit false

namespace SelectSyntax.Grammar

open Token (Kind Keyword)
open SyntaxTree

namespace Derives

variable {allows : Allows} {α β γ : Type} {n : Nat} {w : Word}

theorem pure_iff {a b : α} : Derives allows (pure a) n w b ↔ w = [] ∧ b = a := by
  constructor
  · intro h
    cases h
    exact ⟨rfl, rfl⟩
  · rintro ⟨rfl, rfl⟩
    exact .empty b

theorem seq_iff {F : Form (β → α)} {H : Form β} {a : α} :
    Derives allows (F <*> H) n w a ↔
      ∃ u v f b, w = u ++ v ∧ Derives allows F n u f ∧ Derives allows H (n + u.questions) v b ∧
        a = f b := by
  constructor
  · intro h
    cases h with
    | sequence first second => exact ⟨_, _, _, _, rfl, first, second, rfl⟩
  · rintro ⟨u, v, f, b, rfl, first, second, rfl⟩
    exact .sequence first second

theorem map_iff {f : β → α} {F : Form β} {a : α} :
    Derives allows (f <$> F) n w a ↔ ∃ b, Derives allows F n w b ∧ a = f b := by
  show Derives allows ((pure f : Form (β → α)) <*> F) n w a ↔ _
  simp only [seq_iff, pure_iff]
  constructor
  · rintro ⟨_, v, _, b, rfl, ⟨rfl, rfl⟩, h, rfl⟩
    exact ⟨b, h, rfl⟩
  · rintro ⟨b, h, rfl⟩
    exact ⟨[], w, f, b, rfl, ⟨rfl, rfl⟩, h, rfl⟩

theorem seqLeft_iff {F : Form α} {H : Form β} {a : α} :
    Derives allows (F <* H) n w a ↔
      ∃ u v b, w = u ++ v ∧ Derives allows F n u a ∧ Derives allows H (n + u.questions) v b := by
  show Derives allows (Function.const β <$> F <*> H) n w a ↔ _
  simp only [seq_iff, map_iff]
  constructor
  · rintro ⟨u, v, _, b, rfl, ⟨x, first, rfl⟩, second, rfl⟩
    exact ⟨u, v, b, rfl, first, second⟩
  · rintro ⟨u, v, b, rfl, first, second⟩
    exact ⟨u, v, _, b, rfl, ⟨a, first, rfl⟩, second, rfl⟩

theorem seqRight_iff {F : Form β} {H : Form α} {a : α} :
    Derives allows (F *> H) n w a ↔
      ∃ u v b, w = u ++ v ∧ Derives allows F n u b ∧ Derives allows H (n + u.questions) v a := by
  show Derives allows (Function.const β id <$> F <*> H) n w a ↔ _
  simp only [seq_iff, map_iff]
  constructor
  · rintro ⟨u, v, _, b, rfl, ⟨x, first, rfl⟩, second, rfl⟩
    exact ⟨u, v, x, rfl, first, second⟩
  · rintro ⟨u, v, b, rfl, first, second⟩
    exact ⟨u, v, _, a, rfl, ⟨b, first, rfl⟩, second, rfl⟩

theorem or_iff {F H : Form α} {a : α} :
    Derives allows (F <|> H) n w a ↔ Derives allows F n w a ∨ Derives allows H n w a := by
  constructor
  · intro h
    cases h with
    | left h => exact Or.inl h
    | right h => exact Or.inr h
  · rintro (h | h)
    · exact .left h
    · exact .right h

theorem symbol_iff {read : Symbol → Option α} {a : α} :
    Derives allows (.symbol read) n w a ↔ ∃ s, w = [s] ∧ s.isPlain = true ∧ read s = some a := by
  constructor
  · intro h
    cases h with
    | symbol plain value => exact ⟨_, rfl, plain, value⟩
  · rintro ⟨s, rfl, plain, value⟩
    exact .symbol plain value

theorem parameter_iff {f : Nat → α} {a : α} :
    Derives allows (.parameter f) n w a ↔ ∃ text, w = [⟨.question, text⟩] ∧ a = f (n + 1) := by
  constructor
  · intro h
    cases h
    exact ⟨_, rfl, rfl⟩
  · rintro ⟨text, rfl, rfl⟩
    exact .parameter

private theorem nonterminal_iff {X : Nonterminal} {f : X.Result → α} {a : α} :
    Derives allows (.nonterminal X f) n w a ↔ ∃ b, Derives allows (rules X) n w b ∧ a = f b := by
  constructor
  · intro h
    cases h with
    | nonterminal h => exact ⟨_, h, rfl⟩
  · rintro ⟨b, h, rfl⟩
    exact .nonterminal h

theorem construct_iff {e : Parse.Entry} {a : e.Result} :
    Derives allows (Form.construct e) n w a ↔ Derives allows (rules (.construct e)) n w a := by
  simp [Form.construct, nonterminal_iff]

theorem row_iff {a : Expr} : Derives allows Form.row n w a ↔ Derives allows sum n w a := by
  simp only [Form.row, nonterminal_iff, id, exists_eq_right']
  rfl

theorem parens_iff {F : Form α} {a : α} :
    Derives allows (.parens F) n w a ↔
      ∃ opening closing v, w = ⟨.leftParen, opening⟩ :: (v ++ [⟨.rightParen, closing⟩]) ∧
        Derives allows F n v a := by
  constructor
  · intro h
    cases h with
    | parens h => exact ⟨_, _, _, rfl, h⟩
  · rintro ⟨opening, closing, v, rfl, h⟩
    exact .parens h

theorem prefer_iff {F : Form β} {H : Form γ} {f : β ⊕ γ → α} {a : α} :
    Derives allows (.prefer F H f) n w a ↔
      ∃ opening closing v, w = ⟨.leftParen, opening⟩ :: (v ++ [⟨.rightParen, closing⟩]) ∧
        ((∃ b, Derives allows F n v b ∧ a = f (.inl b)) ∨
          ∃ c, allows β F n v ∧ Derives allows H n v c ∧ a = f (.inr c)) := by
  constructor
  · intro h
    cases h with
    | preferred h => exact ⟨_, _, _, rfl, Or.inl ⟨_, h, rfl⟩⟩
    | other allowed h => exact ⟨_, _, _, rfl, Or.inr ⟨_, allowed, h, rfl⟩⟩
  · rintro ⟨opening, closing, v, rfl, ⟨b, h, rfl⟩ | ⟨c, allowed, h, rfl⟩⟩
    · exact .preferred h
    · exact .other allowed h

theorem repeated_values {F : Form β} {f : List β → α} {a : α}
    (h : Derives allows (.repeated F f) n w a) :
    ∃ items, a = f items ∧ ∀ {γ : Type} (g : List β → γ), Derives allows (.repeated F g) n w (g items) := by
  generalize same : Form.repeated F f = R at h
  induction h generalizing β with
  | none =>
      cases same
      exact ⟨[], rfl, fun g => .none⟩
  | more first rest _ ih =>
      cases same
      obtain ⟨items, value, all⟩ := ih rfl
      exact ⟨_ :: items, value, fun g => .more first (all fun bs => g (_ :: bs))⟩
  | _ => cases same

theorem many_nil_iff {F : Form β} : Derives allows (Form.many F) n w [] ↔ w = [] := by
  constructor
  · intro h
    unfold Form.many at h
    generalize none_ : ([] : List β) = a at h
    cases h with
    | none => rfl
    | more first rest =>
        obtain ⟨items, value, _⟩ := repeated_values rest
        cases none_.trans value
  · rintro rfl
    exact .none

theorem many_cons_iff {F : Form β} {b : β} {items : List β} :
    Derives allows (Form.many F) n w (b :: items) ↔
      ∃ u v, w = u ++ v ∧ Derives allows F n u b ∧
        Derives allows (Form.many F) (n + u.questions) v items := by
  constructor
  · intro h
    unfold Form.many at h
    generalize some_ : b :: items = a at h
    cases h with
    | none => cases some_
    | more first rest =>
        obtain ⟨others, value, all⟩ := repeated_values rest
        cases some_.trans value
        exact ⟨_, _, rfl, first, all id⟩
  · rintro ⟨u, v, rfl, first, rest⟩
    obtain ⟨others, rfl, all⟩ := repeated_values rest
    exact .more first (all fun bs => id (b :: bs))

theorem mark_iff {k : Kind} {u : Unit} : Derives allows (Form.mark k) n w u ↔
    ∃ text, w = [⟨k, text⟩] ∧ (⟨k, text⟩ : Symbol).isPlain = true := by
  simp only [Form.mark, symbol_iff, Option.ite_none_right_eq_some]
  constructor
  · rintro ⟨⟨k, text⟩, rfl, plain, rfl, _⟩
    exact ⟨text, rfl, plain⟩
  · rintro ⟨text, rfl, plain⟩
    exact ⟨_, rfl, plain, rfl, trivial⟩

theorem text_iff {k : Kind} {t : String} : Derives allows (Form.text k) n w t ↔
    w = [⟨k, t⟩] ∧ (⟨k, t⟩ : Symbol).isPlain = true := by
  simp only [Form.text, symbol_iff, Option.ite_none_right_eq_some, Option.some.injEq]
  constructor
  · rintro ⟨⟨k, text⟩, rfl, plain, rfl, rfl⟩
    exact ⟨rfl, plain⟩
  · rintro ⟨rfl, plain⟩
    exact ⟨_, rfl, plain, rfl, rfl⟩

theorem word_iff {k : Keyword} {u : Unit} :
    Derives allows (Form.word k) n w u ↔ ∃ text, w = [⟨.keyword k, text⟩] := by
  simp [Form.word, mark_iff, Symbol.isPlain, Kind.isTerminal]

theorem oneOf_iff {read : Kind → Option α} {a : α} : Derives allows (Form.oneOf read) n w a ↔
    ∃ s : Symbol, w = [s] ∧ s.isPlain = true ∧ read s.kind = some a :=
  symbol_iff

theorem optional_none_iff {F : Form α} : Derives allows (Form.optional F) n w Option.none ↔ w = [] := by
  simp [Form.optional, or_iff, map_iff, pure_iff]

theorem separated_iff {k : Kind} {F : Form β} {items : List β} :
    Derives allows (Form.separated k F) n w items ↔ ∃ u v b rest, items = b :: rest ∧ w = u ++ v ∧
      Derives allows F n u b ∧
        Derives allows (Form.many (Form.mark k *> F)) (n + u.questions) v rest := by
  simp only [Form.separated, seq_iff, map_iff]
  constructor
  · rintro ⟨u, v, _, rest, rfl, ⟨b, first, rfl⟩, others, rfl⟩
    exact ⟨u, v, b, rest, rfl, rfl, first, others⟩
  · rintro ⟨u, v, b, rest, rfl, rfl, first, others⟩
    exact ⟨u, v, _, rest, rfl, ⟨b, first, rfl⟩, others, rfl⟩

end Derives

theorem Word.questions_append (u v : Word) :
    (u ++ v : Word).questions = u.questions + v.questions := List.countP_append

namespace Derives

variable {allows : Allows} {α β : Type} {n : Nat}

theorem many_snoc {F : Form β} {u v : Word} {items : List β} {b : β}
    (rest : Derives allows (Form.many F) n u items) (last : Derives allows F (n + u.questions) v b) :
    Derives allows (Form.many F) n (u ++ v) (items ++ [b]) := by
  induction items generalizing n u with
  | nil =>
      obtain rfl := many_nil_iff.mp rest
      exact many_cons_iff.mpr ⟨v, [], (List.append_nil v).symm, last, many_nil_iff.mpr rfl⟩
  | cons a items ih =>
      obtain ⟨x, y, rfl, first, rest⟩ := many_cons_iff.mp rest
      refine many_cons_iff.mpr ⟨x, y ++ v, List.append_assoc .., first, ih rest ?_⟩
      rwa [Nat.add_assoc, ← Word.questions_append]

variable {step : α → β → α} {F : Form α} {G : Form β}

theorem fold_iff {w : Word} {a : α} :
    Derives allows ((fun first rest => List.foldl step first rest) <$> F <*> Form.many G) n w a ↔
      ∃ u v first rest, w = u ++ v ∧ Derives allows F n u first ∧
        Derives allows (Form.many G) (n + u.questions) v rest ∧ a = rest.foldl step first := by
  simp only [seq_iff, map_iff]
  constructor
  · rintro ⟨u, v, _, rest, rfl, ⟨first, head, rfl⟩, others, rfl⟩
    exact ⟨u, v, first, rest, rfl, head, others, rfl⟩
  · rintro ⟨u, v, first, rest, rfl, head, others, rfl⟩
    exact ⟨u, v, _, rest, rfl, ⟨first, head, rfl⟩, others, rfl⟩

theorem fold_single {w : Word} {a : α} (h : Derives allows F n w a) :
    Derives allows ((fun first rest => List.foldl step first rest) <$> F <*> Form.many G) n w a :=
  fold_iff.mpr ⟨w, [], a, [], (List.append_nil w).symm, h, many_nil_iff.mpr rfl, rfl⟩

theorem fold_snoc {u v : Word} {a : α} {b : β}
    (front : Derives allows ((fun first rest => List.foldl step first rest) <$> F <*> Form.many G) n u a)
    (last : Derives allows G (n + u.questions) v b) :
    Derives allows ((fun first rest => List.foldl step first rest) <$> F <*> Form.many G) n (u ++ v)
      (step a b) := by
  obtain ⟨x, y, first, rest, rfl, head, others, rfl⟩ := fold_iff.mp front
  have snoc := many_snoc others (show Derives allows G (n + x.questions + y.questions) v b by
    rwa [Nat.add_assoc, ← Word.questions_append])
  exact fold_iff.mpr ⟨x, y ++ v, first, _, List.append_assoc .., head, snoc, by rw [List.foldl_append]; rfl⟩

/-- What holds of the first phrase and goes on from phrase to phrase holds of all of them. -/
theorem fold_induction {motive : Word → α → Prop} {w : Word} {a : α}
    (h : Derives allows ((fun first rest => List.foldl step first rest) <$> F <*> Form.many G) n w a)
    (first : ∀ u a, Derives allows F n u a → motive u a)
    (next : ∀ u a v b, motive u a → Derives allows G (n + u.questions) v b → motive (u ++ v) (step a b)) :
    motive w a := by
  obtain ⟨u, v, a, rest, rfl, head, others, rfl⟩ := fold_iff.mp h
  have start := first u a head
  clear head first h
  induction rest generalizing u v a with
  | nil =>
      obtain rfl := many_nil_iff.mp others
      rwa [List.append_nil]
  | cons b rest ih =>
      obtain ⟨x, y, rfl, item, others⟩ := many_cons_iff.mp others
      have whole := ih (u ++ x) y (step a b) (by rwa [Word.questions_append, ← Nat.add_assoc])
        (next u a x b start item)
      rwa [← List.append_assoc]

/-- A chain that stands for no operation is its first phrase. -/
theorem chain_leaf {operator : Kind → Option BinaryOp} {F : Form Expr} {w : Word} {e : Expr}
    (h : Derives allows (Form.chain operator F) n w e) (leaf : ∀ op l r, e ≠ .binary op l r) :
    Derives allows F n w e := by
  have general := fold_induction (motive := fun w e => Derives allows F n w e ∨ ∃ op l r, e = .binary op l r)
    h (fun _ _ => Or.inl) fun _ left _ next _ _ => Or.inr ⟨next.1, left, next.2, rfl⟩
  rcases general with first | ⟨op, l, r, same⟩
  · exact first
  · exact absurd same (leaf op l r)

end Derives

namespace Derives

theorem mono {allows allows' : Allows} (more : ∀ α F n w, allows α F n w → allows' α F n w)
    {α : Type} {F : Form α} {n : Nat} {w : Word} {a : α} (h : Derives allows F n w a) :
    Derives allows' F n w a := by
  induction h with
  | empty a => exact .empty a
  | symbol plain value => exact .symbol plain value
  | parameter => exact .parameter
  | nonterminal _ ih => exact .nonterminal ih
  | sequence _ _ first second => exact .sequence first second
  | left _ ih => exact .left ih
  | right _ ih => exact .right ih
  | none => exact .none
  | more _ _ first rest => exact .more first rest
  | parens _ ih => exact .parens ih
  | preferred _ ih => exact .preferred ih
  | other allowed _ ih => exact .other (more _ _ _ _ allowed) ih

theorem any {allows : Allows} {α : Type} {F : Form α} {n : Nat} {w : Word} {a : α}
    (h : Derives allows F n w a) : Derives anyReading F n w a :=
  h.mono fun _ _ _ _ _ => trivial

/-- A word that is derived at all is derived with first readings preferred. -/
theorem exists_first {α : Type} {F : Form α} {n : Nat} {w : Word} {a : α}
    (h : Derives anyReading F n w a) : ∃ b, Derives firstReading F n w b := by
  -- by induction on the length, since a word that is read anew inside a parenthesis is shorter
  suffices general : ∀ k, ∀ {α : Type} {F : Form α} {n : Nat} {w : Word} {a : α}, w.length ≤ k →
      Derives anyReading F n w a → ∃ b, Derives firstReading F n w b from
    general w.length (Nat.le_refl _) h
  intro k
  induction k using Nat.strongRecOn with
  | _ k shorter =>
    intro α F n w a le h
    induction h with
    | empty a => exact ⟨a, .empty a⟩
    | symbol plain value => exact ⟨_, .symbol plain value⟩
    | parameter => exact ⟨_, .parameter⟩
    | nonterminal _ ih =>
        obtain ⟨b, h⟩ := ih le
        exact ⟨_, .nonterminal h⟩
    | sequence _ _ ih₁ ih₂ =>
        rw [List.length_append] at le
        obtain ⟨f, first⟩ := ih₁ (by omega)
        obtain ⟨b, second⟩ := ih₂ (by omega)
        exact ⟨f b, .sequence first second⟩
    | left _ ih =>
        obtain ⟨b, h⟩ := ih le
        exact ⟨b, .left h⟩
    | right _ ih =>
        obtain ⟨b, h⟩ := ih le
        exact ⟨b, .right h⟩
    | none => exact ⟨_, .none⟩
    | more _ _ ih₁ ih₂ =>
        rw [List.length_append] at le
        obtain ⟨b, first⟩ := ih₁ (by omega)
        obtain ⟨_, rest⟩ := ih₂ (by omega)
        obtain ⟨items, _, all⟩ := repeated_values rest
        exact ⟨_, .more first (all _)⟩
    | parens _ ih =>
        simp only [List.length_cons, List.length_append, List.length_nil] at le
        obtain ⟨b, h⟩ := ih (by omega)
        exact ⟨b, .parens h⟩
    | preferred _ ih =>
        simp only [List.length_cons, List.length_append, List.length_nil] at le
        obtain ⟨b, h⟩ := ih (by omega)
        exact ⟨_, .preferred h⟩
    | @other _ β _ F H _ n _ _ v c _ _ ih =>
        simp only [List.length_cons, List.length_append, List.length_nil] at le
        by_cases first : ∃ b, Derives anyReading F n v b
        · obtain ⟨b, h⟩ := first
          obtain ⟨b, h⟩ := shorter v.length (by omega) (Nat.le_refl _) h
          exact ⟨_, .preferred h⟩
        · obtain ⟨c, h⟩ := ih (by omega)
          exact ⟨_, .other first h⟩

theorem live {allows : Allows} {α : Type} {F : Form α} {n : Nat} {w : Word} {a : α}
    (h : Derives allows F n w a) : ∀ s ∈ w, s.kind.isTerminal = false := by
  induction h with
  | empty | none => simp
  | symbol plain _ =>
      simp only [Symbol.isPlain, Bool.and_eq_true, Bool.not_eq_true'] at plain
      simpa using plain.2
  | parameter => simp [Kind.isTerminal]
  | nonterminal _ ih | left _ ih | right _ ih => exact ih
  | sequence _ _ first second | more _ _ first second =>
      intro s mem
      rcases List.mem_append.mp mem with mem | mem
      · exact first s mem
      · exact second s mem
  | parens _ ih | preferred _ ih | other _ _ ih =>
      intro s mem
      simp only [List.mem_cons, List.mem_append, List.not_mem_nil, or_false] at mem
      rcases mem with rfl | mem | rfl
      · rfl
      · exact ih s mem
      · rfl

end Derives

namespace Word

/-- The number of open parentheses after a word, from the number before it; nothing if one is closed
that is not open. -/
def nesting : Word → Nat → Option Nat
  | [], d => some d
  | s :: w, d =>
      if s.kind = .leftParen then nesting w (d + 1)
      else if s.kind = .rightParen then
        match d with
        | 0 => none
        | d + 1 => nesting w d
      else nesting w d

/-- A word in which every parenthesis has its partner. -/
def Balanced (w : Word) : Prop := ∀ d, nesting w d = some d

theorem nesting_append (u v : Word) (d : Nat) :
    nesting (u ++ v) d = (nesting u d).bind (nesting v) := by
  induction u generalizing d with
  | nil => rfl
  | cons s u ih =>
      simp only [List.cons_append, nesting]
      split
      · exact ih _
      · split
        · cases d with
          | zero => rfl
          | succ d => exact ih _
        · exact ih _

theorem Balanced.append {u v : Word} (hu : Balanced u) (hv : Balanced v) :
    Balanced (u ++ v : Word) := by
  intro d
  rw [nesting_append, hu d]
  exact hv d

theorem Balanced.parens {w : Word} (h : Balanced w) (opening closing : String) :
    Balanced (⟨.leftParen, opening⟩ :: (w ++ [⟨.rightParen, closing⟩]) : Word) := by
  intro d
  simp [nesting, nesting_append, h (d + 1)]

/-- A parenthesis that closes after a balanced word is the same, wherever such a word is cut off. -/
theorem Balanced.unique {u u' r r' : Word} {s s' : Symbol} (hu : Balanced u) (hu' : Balanced u')
    (closes : s.kind = .rightParen) (closes' : s'.kind = .rightParen)
    (same : u ++ s :: r = u' ++ s' :: r') : u = u' := by
  have short : ∀ {v v' x : Word} {t : Symbol}, Balanced v → Balanced v' → t.kind = .rightParen →
      v' ≠ v ++ t :: x := by
    rintro v v' x t hv hv' closes rfl
    have fails := hv' 0
    rw [nesting_append, hv 0, Option.bind_some, nesting, if_neg (by simp [closes]),
      if_pos closes] at fails
    cases fails
  rcases List.append_eq_append_iff.mp same with ⟨x, rfl, rest⟩ | ⟨x, rfl, rest⟩
  · cases x with
    | nil => simp
    | cons t x =>
        cases rest
        exact absurd rfl (short hu hu' closes)
  · cases x with
    | nil => simp
    | cons t x =>
        cases rest
        exact absurd rfl (short hu' hu closes')

end Word

theorem Derives.balanced {allows : Allows} {α : Type} {F : Form α} {n : Nat} {w : Word} {a : α}
    (h : Derives allows F n w a) : Word.Balanced w := by
  induction h with
  | empty | none => exact fun _ => rfl
  | symbol plain _ =>
      intro d
      simp only [Symbol.isPlain, Bool.and_eq_true, bne_iff_ne] at plain
      simp [Word.nesting, plain.1.1, plain.1.2]
  | parameter => exact fun d => by simp [Word.nesting]
  | nonterminal _ ih | left _ ih | right _ ih => exact ih
  | sequence _ _ first second | more _ _ first second => exact first.append second
  | parens _ ih | preferred _ ih | other _ _ ih => exact ih.parens _ _

end SelectSyntax.Grammar
