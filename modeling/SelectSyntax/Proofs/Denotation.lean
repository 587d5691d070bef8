import SelectSyntax.Proofs.Leaves
import SelectSyntax.Proofs.Shape
import SelectSyntax.Proofs.Writing

/-!
Written trees are derived: the symbols of the pieces that a tree of the right shape is written as are derived
from the form of its tier, and they stand for that tree. The parameters of the tree only have to go on from
the number of those in front.
-/

set_option autoImplicit false
set_option relaxedAutoImplicit false

namespace SelectSyntax

open Token (Kind Keyword)
open SyntaxTree

/-- Leaves whose parameters go on from a number. -/
def Leaf.Numbered (n : Nat) (ls : List Leaf) : Prop :=
  ls.filterMap Leaf.position? = List.range' (n + 1) (ls.filterMap Leaf.position?).length

theorem Leaf.numbered_append {n : Nat} {l r : List Leaf} :
    Leaf.Numbered n (l ++ r) ↔
      Leaf.Numbered n l ∧ Leaf.Numbered (n + (l.filterMap Leaf.position?).length) r := by
  unfold Numbered
  rw [List.filterMap_append, List.length_append, ← List.range'_append_1]
  constructor
  · intro h
    have parts := List.append_inj h (by simp)
    exact ⟨parts.1, by rw [Nat.add_right_comm]; exact parts.2⟩
  · rintro ⟨front, back⟩
    rw [Nat.add_right_comm] at back
    exact congr (congrArg _ front) back

namespace Grammar

/-- A word stands for a value of a form: it is derived wherever the parameters among the leaves go on from
those in front, and it holds as many parameter marks as there are. -/
def Denotes {α : Type} (F : Form α) (w : Word) (a : α) (ls : List Leaf) : Prop :=
  w.questions = (ls.filterMap Leaf.position?).length ∧
    ∀ n, Leaf.Numbered n ls → Derives firstReading F n w a

namespace Denotes

variable {α β γ : Type} {F : Form α} {w u v : Word} {a : α} {ls l r : List Leaf}

theorem of_eq {w' : Word} {ls' : List Leaf} (h : Denotes F w a ls) (word : w' = w) (leaves : ls' = ls) :
    Denotes F w' a ls' := by
  rwa [word, leaves]

theorem pure (a : α) : Denotes (pure a) [] a [] := ⟨rfl, fun _ _ => Derives.pure_iff.mpr ⟨rfl, rfl⟩⟩

theorem map {f : β → α} {F : Form β} {b : β} (h : Denotes F w b ls) : Denotes (f <$> F) w (f b) ls :=
  ⟨h.1, fun n numbered => Derives.map_iff.mpr ⟨b, h.2 n numbered, rfl⟩⟩

theorem seq {F : Form (β → α)} {H : Form β} {f : β → α} {b : β} (first : Denotes F u f l)
    (second : Denotes H v b r) : Denotes (F <*> H) (u ++ v) (f b) (l ++ r) := by
  refine ⟨?_, fun n numbered => ?_⟩
  · rw [Word.questions_append, first.1, second.1, List.filterMap_append, List.length_append]
  · obtain ⟨front, back⟩ := Leaf.numbered_append.mp numbered
    rw [← first.1] at back
    exact Derives.seq_iff.mpr ⟨u, v, f, b, rfl, first.2 n front, second.2 _ back, rfl⟩

theorem seqLeft {H : Form β} {b : β} (first : Denotes F u a l) (second : Denotes H v b r) :
    Denotes (F <* H) (u ++ v) a (l ++ r) :=
  show Denotes (Function.const β <$> F <*> H) _ _ _ from .seq (.map first) second

theorem seqRight {F : Form β} {H : Form α} {b : β} (first : Denotes F u b l) (second : Denotes H v a r) :
    Denotes (F *> H) (u ++ v) a (l ++ r) :=
  show Denotes (Function.const β id <$> F <*> H) _ _ _ from .seq (.map first) second

theorem left {H : Form α} (h : Denotes F w a ls) : Denotes (F <|> H) w a ls :=
  ⟨h.1, fun n numbered => .left (h.2 n numbered)⟩

theorem right {H : Form α} (h : Denotes H w a ls) : Denotes (F <|> H) w a ls :=
  ⟨h.1, fun n numbered => .right (h.2 n numbered)⟩

theorem symbol {read : Symbol → Option α} {s : Symbol} (plain : s.isPlain = true)
    (mark : s.kind ≠ .question) (none_ : ls.filterMap Leaf.position? = []) (value : read s = some a) :
    Denotes (.symbol read) [s] a ls := by
  refine ⟨?_, fun n _ => .symbol plain value⟩
  simp [Word.questions, mark, none_]

/-- The kinds of marks and words between phrases. -/
def isMark (k : Kind) : Bool := (⟨k, ""⟩ : Symbol).isPlain && k != .question

theorem mark {k : Kind} (h : isMark k = true) : Denotes (Form.mark k) [Symbol.mark k] () [] := by
  simp only [isMark, Bool.and_eq_true, bne_iff_ne] at h
  exact .symbol h.1 h.2 rfl (if_pos rfl)

theorem word (k : Keyword) : Denotes (Form.word k) [Symbol.mark (.keyword k)] () [] := .mark rfl

theorem oneOf {read : Kind → Option α} {k : Kind} (value : read k = some a) (h : isMark k = true) :
    Denotes (Form.oneOf read) [Symbol.mark k] a [] := by
  simp only [isMark, Bool.and_eq_true, bne_iff_ne] at h
  exact .symbol h.1 h.2 rfl value

theorem after {k : Kind} (h : Denotes F w a ls) (isMark : isMark k = true) :
    Denotes (Form.mark k *> F) (Symbol.mark k :: w) a ls :=
  .seqRight (.mark isMark) h

theorem word_then (k : Keyword) (h : Denotes F w a ls) :
    Denotes (Form.word k *> F) (Symbol.mark (.keyword k) :: w) a ls :=
  .after h rfl

theorem then_word (k : Keyword) (h : Denotes F w a ls) :
    Denotes (F <* Form.word k) (w ++ [Symbol.mark (.keyword k)]) a ls := by
  simpa using h.seqLeft (.word k)

theorem flag (k : Keyword) (b : Bool) :
    Denotes (Form.flag k) (Word.ofKeywords (if b then [k] else [])) b [] := by
  cases b with
  | false => exact .right (.pure false)
  | true => exact .left (.map (.word k))

theorem missing : Denotes (Form.optional F) [] none [] := .right (.pure none)

theorem optional (h : Denotes F w a ls) : Denotes (Form.optional F) w (some a) ls := .left (.map h)

theorem construct {e : Parse.Entry} {a : e.Result} (h : Denotes (rules (.construct e)) w a ls) :
    Denotes (Form.construct e) w a ls :=
  ⟨h.1, fun n numbered => Derives.construct_iff.mpr (h.2 n numbered)⟩

theorem row {e : Expr} (h : Denotes sum w e ls) : Denotes Form.row w e ls :=
  ⟨h.1, fun n numbered => Derives.row_iff.mpr (h.2 n numbered)⟩

theorem parens (h : Denotes F w a ls) :
    Denotes (.parens F) (Symbol.mark .leftParen :: (w ++ [Symbol.mark .rightParen])) a ls :=
  ⟨by simpa [Word.questions, Symbol.mark, Symbol.ofText, Token.symbol] using h.1,
    fun n numbered => .parens (h.2 n numbered)⟩

theorem preferred {F : Form β} {H : Form γ} {f : β ⊕ γ → α} {b : β} (h : Denotes F w b ls) :
    Denotes (.prefer F H f) (Symbol.mark .leftParen :: (w ++ [Symbol.mark .rightParen])) (f (.inl b)) ls :=
  ⟨h.parens.1, fun n numbered => .preferred (h.2 n numbered)⟩

theorem conditions {f : Statement ⊕ List Expr → α} {es : List Expr} (h : Denotes conditions w es ls)
    (other : ¬∃ body, es = [.subquery ⟨none, body, []⟩]) :
    Denotes (.prefer (Form.construct .query) Grammar.conditions f)
      (Symbol.mark .leftParen :: (w ++ [Symbol.mark .rightParen])) (f (.inr es)) ls :=
  ⟨h.parens.1, fun n numbered =>
    have derives := h.2 n numbered
    .other (fun query => other (derives.conditions_query_iff.mp query)) derives⟩

theorem many_nil : Denotes (Form.many F) [] [] [] := ⟨rfl, fun _ _ => Derives.many_nil_iff.mpr rfl⟩

theorem many_cons {items : List α} (first : Denotes F u a l) (rest : Denotes (Form.many F) v items r) :
    Denotes (Form.many F) (u ++ v) (a :: items) (l ++ r) := by
  refine ⟨?_, fun n numbered => ?_⟩
  · rw [Word.questions_append, first.1, rest.1, List.filterMap_append, List.length_append]
  · obtain ⟨front, back⟩ := Leaf.numbered_append.mp numbered
    rw [← first.1] at back
    exact Derives.many_cons_iff.mpr ⟨u, v, rfl, first.2 n front, rest.2 _ back⟩

theorem separated {k : Kind} (isMark : isMark k = true) {word : α → Word} {leaves : α → List Leaf}
    (items : List α) (some_ : items ≠ []) (h : ∀ a ∈ items, Denotes F (word a) a (leaves a)) :
    Denotes (Form.separated k F) ([Symbol.mark k].intercalate (items.map word)) items
      (items.flatMap leaves) := by
  have rest : ∀ items : List α, (∀ a ∈ items, Denotes F (word a) a (leaves a)) →
      Denotes (Form.many (Form.mark k *> F)) (items.flatMap fun a => Symbol.mark k :: word a) items
        (items.flatMap leaves) := by
    intro items h
    induction items with
    | nil => exact .many_nil
    | cons a items ih =>
        obtain ⟨first, others⟩ := List.forall_mem_cons.mp h
        exact .many_cons (first.after isMark) (ih others)
  have between : ∀ (a : α) (items : List α), [Symbol.mark k].intercalate ((a :: items).map word) =
      word a ++ items.flatMap fun a => Symbol.mark k :: word a := by
    intro a items
    induction items generalizing a with
    | nil => simp
    | cons b items ih =>
        rw [List.map_cons, List.map_cons, List.intercalate_cons_cons, ← List.map_cons, ih]
        simp
  cases items with
  | nil => exact absurd rfl some_
  | cons a items =>
      obtain ⟨first, others⟩ := List.forall_mem_cons.mp h
      rw [between, List.flatMap_cons]
      exact .seq (.map first) (rest items others)

variable {step : α → β → α} {G : Form β}

theorem fold_single (h : Denotes F w a ls) :
    Denotes ((fun first rest => List.foldl step first rest) <$> F <*> Form.many G) w a ls :=
  ⟨h.1, fun n numbered => (h.2 n numbered).fold_single⟩

theorem fold_snoc {b : β}
    (front : Denotes ((fun first rest => List.foldl step first rest) <$> F <*> Form.many G) u a l)
    (last : Denotes G v b r) :
    Denotes ((fun first rest => List.foldl step first rest) <$> F <*> Form.many G) (u ++ v) (step a b)
      (l ++ r) := by
  refine ⟨?_, fun n numbered => ?_⟩
  · rw [Word.questions_append, front.1, last.1, List.filterMap_append, List.length_append]
  · obtain ⟨before, behind⟩ := Leaf.numbered_append.mp numbered
    rw [← front.1] at behind
    exact (front.2 n before).fold_snoc (last.2 _ behind)

end Denotes

/-- The form of each tier of the grammar of expressions. -/
def tier : Render.Level → Form Expr
  | 0 | 1 => condition
  | 2 => conjunction
  | 3 => negation
  | 4 => truthTest
  | 5 => predicate
  | 6 => sum
  | 7 => product
  | 8 => power
  | _ => primary

namespace Denotes

variable {w : Word} {e : Expr} {ls : List Leaf}

private theorem predicate_of_sum (h : Denotes sum w e ls) : Denotes predicate w e ls := by
  have alone := (Denotes.map (f := fun operand (f : Expr → Expr) => f operand) (row h)).seq
    (.right (.right (.right (.right (.right (.pure id))))) :
      Denotes (comparisonEnd <|> nullEnd <|> betweenEnd <|> inEnd <|> likeEnd <|> Pure.pure id) [] id [])
  rw [List.append_nil, List.append_nil] at alone
  exact .right alone

private theorem truthTest_of_predicate (h : Denotes predicate w e ls) : Denotes truthTest w e ls := by
  have alone := (Denotes.map (f := fun operand (f : Expr → Expr) => f operand) h).seq
    (.right (.pure id) : Denotes ((fun negated value => Expr.is value negated) <$>
      (Form.word .IS *> Form.flag .NOT) <*> truthValue <|> Pure.pure id) [] id [])
  rw [List.append_nil, List.append_nil] at alone
  exact alone

private theorem step_down (k : Render.Level) (h : Denotes (tier (k + 1)) w e ls) : Denotes (tier k) w e ls :=
  match k, h with
  | 0, h => h
  | 1, h => .fold_single h
  | 2, h => .fold_single h
  | 3, h => .right h
  | 4, h => truthTest_of_predicate h
  | 5, h => predicate_of_sum h
  | 6, h => .fold_single h
  | 7, h => .fold_single h
  | 8, h => .fold_single h
  | _ + 9, h => h

theorem lower {j k : Render.Level} (le : j ≤ k) (h : Denotes (tier k) w e ls) : Denotes (tier j) w e ls := by
  induction le with
  | refl => exact h
  | step _ ih => exact ih (step_down _ h)

end Denotes

end Grammar

end SelectSyntax
