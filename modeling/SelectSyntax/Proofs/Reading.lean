import SelectSyntax.Proofs.Alike
import SelectSyntax.Proofs.Derivation
import SelectSyntax.Proofs.Terminals

/-!
Phrases between two states: a form is read from one state to another when the tokens between them are
derived from it. What a phrase of each kind of form is made of is said in terms of the states on the way.
-/

set_option autoImplicit false
set_option relaxedAutoImplicit false

namespace SelectSyntax.Parse

open Grammar (Allows Derives anyReading firstReading rules)
open Token (Kind Keyword)
open SyntaxTree (Expr)

namespace State

/-- The state one token further, with a parameter mark counted. -/
def next (s : State) : State :=
  { s.advance with parameters := s.parameters + if s.kind = .question then 1 else 0 }

/-- A state is as many tokens further as a word has symbols, at the same depth, and these are the symbols of
the tokens on the way. -/
def Spells (s : State) (w : Word) (t : State) : Prop :=
  ∃ run, s.cursor.snapshots = run ++ t.cursor.snapshots ∧ run.map (fun p => p.token.symbol) = w ∧
    t.parameters = s.parameters + w.questions ∧ t.depth = s.depth

theorem Spells.refl (s : State) : s.Spells [] s := ⟨[], rfl, rfl, rfl, rfl⟩

theorem Spells.trans {s m t : State} {u v : Word} (first : s.Spells u m) (second : m.Spells v t) :
    s.Spells (u ++ v) t := by
  obtain ⟨run, snapshots, rfl, parameters, depth⟩ := first
  obtain ⟨run', snapshots', rfl, parameters', depth'⟩ := second
  refine ⟨run ++ run', by rw [snapshots, snapshots', List.append_assoc], List.map_append, ?_,
    depth'.trans depth⟩
  rw [parameters', parameters, Grammar.Word.questions_append, Nat.add_assoc]

theorem Spells.split {s t : State} {u v : Word} (h : s.Spells (u ++ v) t) :
    ∃ m, s.Spells u m ∧ m.Spells v t := by
  obtain ⟨run, snapshots, word, parameters, depth⟩ := h
  obtain ⟨front, back, rfl, rfl, rfl⟩ := List.map_eq_append_iff.mp word
  obtain ⟨current, ahead, rest⟩ : ∃ current ahead, back ++ t.cursor.snapshots = current :: ahead := by
    cases back with
    | nil => exact ⟨_, _, rfl⟩
    | cons p back => exact ⟨_, _, rfl⟩
  refine ⟨⟨⟨current, ahead⟩, _, _⟩, ⟨front, ?_, rfl, rfl, rfl⟩, ⟨back, rest.symm, rfl, ?_, depth⟩⟩
  · rw [snapshots, List.append_assoc, rest]
    rfl
  · rw [parameters, Grammar.Word.questions_append, Nat.add_assoc]

theorem spells_nil_iff {s t : State} : s.Spells [] t ↔ t = s := by
  constructor
  · rintro ⟨run, snapshots, word, parameters, depth⟩
    obtain rfl := List.map_eq_nil_iff.mp word
    obtain ⟨⟨current, ahead⟩, n, d⟩ := s
    obtain ⟨⟨current', ahead'⟩, n', d'⟩ := t
    cases snapshots
    cases parameters
    cases depth
    rfl
  · rintro rfl
    exact .refl t

theorem Spells.within {s t : State} {w : Word} (h : s.Spells w t) : t.Within s := by
  obtain ⟨run, snapshots, _, _, depth⟩ := h
  exact ⟨⟨run, snapshots.symm⟩, depth⟩

theorem spells_single_iff {s t : State} {a : Symbol} (complete : s.Complete) :
    s.Spells [a] t ↔ s.token.symbol = a ∧ s.kind.isTerminal = false ∧ t = s.next := by
  obtain ⟨⟨current, ahead⟩, n, d⟩ := s
  constructor
  · rintro ⟨run, snapshots, word, parameters, depth⟩
    obtain ⟨p, rfl, rfl⟩ := List.map_eq_singleton_iff.mp word
    obtain ⟨⟨current', ahead'⟩, n', d'⟩ := t
    cases snapshots
    cases depth
    have live : current.isTerminal = false := complete.1
    refine ⟨rfl, live, ?_⟩
    have counted : n' = n + if current.token.kind = .question then 1 else 0 := by
      simpa [Word.questions, List.countP_singleton, Token.symbol] using parameters
    rw [counted]
    rfl
  · rintro ⟨rfl, live, rfl⟩
    cases ahead with
    | nil =>
        have terminal : current.isTerminal = true := complete
        rw [State.kind, State.token, ← Snapshot.isTerminal, terminal] at live
        cases live
    | cons following ahead =>
        refine ⟨[current], rfl, rfl, ?_, rfl⟩
        by_cases question : current.token.kind = .question <;>
          simp [next, Word.questions, State.kind, State.token, Token.symbol, question]

theorem Spells.unique {s t t' : State} {w : Word} (h : s.Spells w t) (h' : s.Spells w t') :
    t = t' := by
  obtain ⟨run, snapshots, word, parameters, depth⟩ := h
  obtain ⟨run', snapshots', word', parameters', depth'⟩ := h'
  have length : run.length = run'.length := by
    have lengths := congrArg List.length (word.trans word'.symm)
    simpa using lengths
  have same := (List.append_inj (snapshots.symm.trans snapshots') length).2
  obtain ⟨⟨current, ahead⟩, n, d⟩ := t
  obtain ⟨⟨current', ahead'⟩, n', d'⟩ := t'
  cases same
  cases parameters.trans parameters'.symm
  cases depth.trans depth'.symm
  rfl

theorem Spells.word_unique {s t : State} {w w' : Word} (h : s.Spells w t) (h' : s.Spells w' t) :
    w = w' := by
  obtain ⟨run, snapshots, rfl, _⟩ := h
  obtain ⟨run', snapshots', rfl, _⟩ := h'
  rw [List.append_cancel_right (snapshots.symm.trans snapshots')]

theorem Spells.parameters {s t : State} {w : Word} (h : s.Spells w t) :
    t.parameters = s.parameters + w.questions := by
  obtain ⟨_, _, _, parameters, _⟩ := h
  exact parameters

theorem next_eq_advance {s : State} (h : s.kind ≠ .question) : s.next = s.advance := by
  simp [next, h, State.advance]

end State

/-- A form is read from a state to another one with a value. -/
def Reads (allows : Allows) (s : State) {α : Type} (F : Form α) (a : α) (t : State) : Prop :=
  s.Complete ∧ ∃ w, s.Spells w t ∧ Derives allows F s.parameters w a

/-- The second reading of a parenthesis is allowed between two states. -/
def Permits (allows : Allows) (s : State) {α : Type} (F : Form α) (t : State) : Prop :=
  ∃ w, s.Spells w t ∧ allows α F s.parameters w

namespace Reads

variable {allows : Allows} {α β γ : Type} {s t : State}

theorem within {F : Form α} {a : α} (h : Reads allows s F a t) : t.Within s := by
  obtain ⟨_, w, spells, _⟩ := h
  exact spells.within

theorem complete {F : Form α} {a : α} (h : Reads allows s F a t) : t.Complete :=
  h.within.complete h.1

theorem remaining_le {F : Form α} {a : α} (h : Reads allows s F a t) : t.remaining ≤ s.remaining :=
  h.within.remaining_le

theorem exists_first {F : Form α} {a : α} (h : Reads anyReading s F a t) :
    ∃ b, Reads firstReading s F b t := by
  obtain ⟨complete, w, spells, derives⟩ := h
  obtain ⟨b, derives⟩ := derives.exists_first
  exact ⟨b, complete, w, spells, derives⟩

/-- The parenthesis that closes after a phrase is the same for all phrases that start in one state. -/
theorem closing_unique {allows' : Allows} {t' : State} {F : Form α} {H : Form β} {a : α} {b : β}
    (h : Reads allows s F a t) (h' : Reads allows' s H b t') (closes : t.kind = .rightParen)
    (closes' : t'.kind = .rightParen) : t = t' := by
  obtain ⟨complete, w, spells, derives⟩ := h
  obtain ⟨_, w', spells', derives'⟩ := h'
  obtain ⟨run, snapshots, rfl, _⟩ := id spells
  obtain ⟨run', snapshots', rfl, _⟩ := id spells'
  have same := congrArg (List.map fun p : Snapshot => p.token.symbol)
    (snapshots.symm.trans snapshots')
  simp only [List.map_append, Cursor.snapshots, List.map_cons] at same
  have words := derives.balanced.unique derives'.balanced closes closes' same
  rw [← words] at spells'
  exact spells.unique spells'

theorem pure_iff {a b : α} : Reads allows s (pure a) b t ↔ s.Complete ∧ b = a ∧ t = s := by
  simp only [Reads, Derives.pure_iff]
  constructor
  · rintro ⟨complete, _, spells, rfl, rfl⟩
    exact ⟨complete, rfl, State.spells_nil_iff.mp spells⟩
  · rintro ⟨complete, rfl, rfl⟩
    exact ⟨complete, [], .refl t, rfl, rfl⟩

theorem seq_iff {F : Form (β → α)} {H : Form β} {a : α} :
    Reads allows s (F <*> H) a t ↔
      ∃ f b m, Reads allows s F f m ∧ Reads allows m H b t ∧ a = f b := by
  simp only [Reads, Derives.seq_iff]
  constructor
  · rintro ⟨complete, _, spells, u, v, f, b, rfl, first, second, rfl⟩
    obtain ⟨m, before, after⟩ := spells.split
    have parameters : m.parameters = s.parameters + u.questions := before.parameters
    exact ⟨f, b, m, ⟨complete, u, before, first⟩,
      ⟨before.within.complete complete, v, after, parameters ▸ second⟩, rfl⟩
  · rintro ⟨f, b, m, ⟨complete, u, before, first⟩, ⟨_, v, after, second⟩, rfl⟩
    have parameters : m.parameters = s.parameters + u.questions := before.parameters
    exact ⟨complete, u ++ v, before.trans after, u, v, f, b, rfl, first, parameters ▸ second, rfl⟩

theorem map_iff {f : β → α} {F : Form β} {a : α} :
    Reads allows s (f <$> F) a t ↔ ∃ b, Reads allows s F b t ∧ a = f b := by
  simp only [Reads, Derives.map_iff]
  constructor
  · rintro ⟨complete, w, spells, b, derives, rfl⟩
    exact ⟨b, ⟨complete, w, spells, derives⟩, rfl⟩
  · rintro ⟨b, ⟨complete, w, spells, derives⟩, rfl⟩
    exact ⟨complete, w, spells, b, derives, rfl⟩

theorem seqLeft_iff {F : Form α} {H : Form β} {a : α} :
    Reads allows s (F <* H) a t ↔ ∃ b m, Reads allows s F a m ∧ Reads allows m H b t := by
  show Reads allows s (Function.const β <$> F <*> H) a t ↔ _
  simp only [seq_iff, map_iff]
  constructor
  · rintro ⟨_, b, m, ⟨_, first, rfl⟩, second, rfl⟩
    exact ⟨b, m, first, second⟩
  · rintro ⟨b, m, first, second⟩
    exact ⟨_, b, m, ⟨a, first, rfl⟩, second, rfl⟩

theorem seqRight_iff {F : Form β} {H : Form α} {a : α} :
    Reads allows s (F *> H) a t ↔ ∃ b m, Reads allows s F b m ∧ Reads allows m H a t := by
  show Reads allows s (Function.const β id <$> F <*> H) a t ↔ _
  simp only [seq_iff, map_iff]
  constructor
  · rintro ⟨_, _, m, ⟨b, first, rfl⟩, second, rfl⟩
    exact ⟨b, m, first, second⟩
  · rintro ⟨b, m, first, second⟩
    exact ⟨_, a, m, ⟨b, first, rfl⟩, second, rfl⟩

theorem or_iff {F H : Form α} {a : α} :
    Reads allows s (F <|> H) a t ↔ Reads allows s F a t ∨ Reads allows s H a t := by
  simp only [Reads, Derives.or_iff]
  constructor
  · rintro ⟨complete, w, spells, derives | derives⟩
    · exact Or.inl ⟨complete, w, spells, derives⟩
    · exact Or.inr ⟨complete, w, spells, derives⟩
  · rintro (⟨complete, w, spells, derives⟩ | ⟨complete, w, spells, derives⟩)
    · exact ⟨complete, w, spells, Or.inl derives⟩
    · exact ⟨complete, w, spells, Or.inr derives⟩

theorem construct_iff {e : Entry} {a : e.Result} :
    Reads allows s (Form.construct e) a t ↔ Reads allows s (rules (.construct e)) a t := by
  simp only [Reads, Derives.construct_iff]

theorem row_iff {a : Expr} : Reads allows s Form.row a t ↔ Reads allows s Grammar.sum a t := by
  simp only [Reads, Derives.row_iff]

theorem symbol_iff {read : Symbol → Option α} {a : α} : Reads allows s (.symbol read) a t ↔
    s.Complete ∧ s.token.symbol.isPlain = true ∧ read s.token.symbol = some a ∧ t = s.next := by
  simp only [Reads, Derives.symbol_iff]
  constructor
  · rintro ⟨complete, _, spells, a, rfl, plain, value⟩
    obtain ⟨rfl, _, rfl⟩ := (State.spells_single_iff complete).mp spells
    exact ⟨complete, plain, value, rfl⟩
  · rintro ⟨complete, plain, value, rfl⟩
    have live : s.kind.isTerminal = false := by
      simp only [Symbol.isPlain, Bool.and_eq_true, Bool.not_eq_true'] at plain
      exact plain.2
    exact ⟨complete, _, (State.spells_single_iff complete).mpr ⟨rfl, live, rfl⟩, _, rfl, plain, value⟩

/-- Kinds that a form may read as a single symbol, apart from a parameter mark. -/
def Single (k : Kind) : Prop := (⟨k, ""⟩ : Symbol).isPlain = true ∧ k ≠ .question

theorem oneOf_iff {read : Kind → Option α} {a : α} (single : ∀ k a, read k = some a → Single k) :
    Reads allows s (Form.oneOf read) a t ↔
      s.Complete ∧ read s.kind = some a ∧ t = s.advance := by
  rw [Form.oneOf, symbol_iff]
  constructor
  · rintro ⟨complete, _, value, rfl⟩
    exact ⟨complete, value, State.next_eq_advance (single _ _ value).2⟩
  · rintro ⟨complete, value, rfl⟩
    exact ⟨complete, (single _ _ value).1, value, (State.next_eq_advance (single _ _ value).2).symm⟩

theorem text_iff {k : Kind} {a : String} (single : Single k) : Reads allows s (Form.text k) a t ↔
    s.Complete ∧ s.kind = k ∧ a = s.token.value ∧ t = s.advance := by
  simp only [Form.text, symbol_iff, Option.ite_none_right_eq_some, Option.some.injEq]
  constructor
  · rintro ⟨complete, _, ⟨rfl, rfl⟩, rfl⟩
    exact ⟨complete, rfl, rfl, State.next_eq_advance single.2⟩
  · rintro ⟨complete, rfl, rfl, rfl⟩
    exact ⟨complete, single.1, ⟨rfl, rfl⟩, (State.next_eq_advance single.2).symm⟩

theorem mark_iff {k : Kind} {u : Unit} (single : Single k) : Reads allows s (Form.mark k) u t ↔
    s.Complete ∧ s.kind = k ∧ t = s.advance := by
  simp only [Form.mark, symbol_iff, Option.ite_none_right_eq_some]
  constructor
  · rintro ⟨complete, _, ⟨rfl, _⟩, rfl⟩
    exact ⟨complete, rfl, State.next_eq_advance single.2⟩
  · rintro ⟨complete, rfl, rfl⟩
    exact ⟨complete, single.1, ⟨rfl, trivial⟩, (State.next_eq_advance single.2).symm⟩

theorem word_iff {k : Keyword} {u : Unit} : Reads allows s (Form.word k) u t ↔
    s.Complete ∧ s.kind = .keyword k ∧ t = s.advance :=
  mark_iff ⟨rfl, by simp⟩

theorem parameter_iff {f : Nat → α} {a : α} : Reads allows s (.parameter f) a t ↔
    s.Complete ∧ s.kind = .question ∧ a = f (s.parameters + 1) ∧
      t = { s.advance with parameters := s.parameters + 1 } := by
  simp only [Reads, Derives.parameter_iff]
  constructor
  · rintro ⟨complete, _, spells, text, rfl, rfl⟩
    obtain ⟨symbol, _, rfl⟩ := (State.spells_single_iff complete).mp spells
    have kind : s.kind = .question := congrArg Symbol.kind symbol
    exact ⟨complete, kind, rfl, by simp [State.next, kind]⟩
  · rintro ⟨complete, kind, rfl, rfl⟩
    have symbol : s.token.symbol = ⟨.question, s.token.value⟩ := by
      rw [Token.symbol, ← show s.kind = s.token.kind from rfl, kind]
    refine ⟨complete, _, (State.spells_single_iff complete).mpr ⟨symbol, by simp [kind, Kind.isTerminal], ?_⟩,
      _, rfl, rfl⟩
    simp [State.next, kind]

private theorem between_iff {P : Nat → Word → Prop} :
    (s.Complete ∧ ∃ w, s.Spells w t ∧ ∃ opening closing v,
      w = ⟨.leftParen, opening⟩ :: (v ++ [⟨.rightParen, closing⟩]) ∧ P s.parameters v) ↔
    s.Complete ∧ s.kind = .leftParen ∧ ∃ m, m.kind = .rightParen ∧ t = m.advance ∧
      ∃ v, s.advance.Spells v m ∧ P s.advance.parameters v := by
  constructor
  · rintro ⟨complete, _, spells, opening, closing, v, rfl, holds⟩
    obtain ⟨m, first, spells⟩ := State.Spells.split (u := [⟨.leftParen, opening⟩]) spells
    obtain ⟨symbol, _, rfl⟩ := (State.spells_single_iff complete).mp first
    have kind : s.kind = .leftParen := congrArg Symbol.kind symbol
    rw [State.next_eq_advance (by simp [kind])] at first spells
    obtain ⟨m, inside, last⟩ := spells.split
    have ahead := inside.within.complete (s.advance_within.complete complete)
    obtain ⟨symbol, _, rfl⟩ := (State.spells_single_iff ahead).mp last
    have closes : m.kind = .rightParen := congrArg Symbol.kind symbol
    exact ⟨complete, kind, m, closes, State.next_eq_advance (by simp [closes]), v, inside, holds⟩
  · rintro ⟨complete, kind, m, closes, rfl, v, inside, holds⟩
    have ahead := inside.within.complete (s.advance_within.complete complete)
    have first : s.Spells [⟨.leftParen, s.token.value⟩] s.advance := by
      refine (State.spells_single_iff complete).mpr ⟨?_, by simp [kind, Kind.isTerminal],
        (State.next_eq_advance (by simp [kind])).symm⟩
      rw [Token.symbol, ← show s.kind = s.token.kind from rfl, kind]
    have last : m.Spells [⟨.rightParen, m.token.value⟩] m.advance := by
      refine (State.spells_single_iff ahead).mpr ⟨?_, by simp [closes, Kind.isTerminal],
        (State.next_eq_advance (by simp [closes])).symm⟩
      rw [Token.symbol, ← show m.kind = m.token.kind from rfl, closes]
    exact ⟨complete, _, first.trans (inside.trans last), _, _, v, rfl, holds⟩

theorem parens_iff {F : Form α} {a : α} : Reads allows s (.parens F) a t ↔
    s.Complete ∧ s.kind = .leftParen ∧ ∃ m, Reads allows s.advance F a m ∧ m.kind = .rightParen ∧
      t = m.advance := by
  have between := between_iff (s := s) (t := t) (P := fun n v => Derives allows F n v a)
  simp only [Reads, Derives.parens_iff]
  rw [between]
  constructor
  · rintro ⟨complete, kind, m, closes, rfl, v, spells, derives⟩
    exact ⟨complete, kind, m, ⟨s.advance_within.complete complete, v, spells, derives⟩, closes, rfl⟩
  · rintro ⟨complete, kind, m, ⟨_, v, spells, derives⟩, closes, rfl⟩
    exact ⟨complete, kind, m, closes, rfl, v, spells, derives⟩

theorem prefer_iff {F : Form β} {H : Form γ} {f : β ⊕ γ → α} {a : α} :
    Reads allows s (.prefer F H f) a t ↔
      s.Complete ∧ s.kind = .leftParen ∧ ∃ m, m.kind = .rightParen ∧ t = m.advance ∧
        ((∃ b, Reads allows s.advance F b m ∧ a = f (.inl b)) ∨
          ∃ c, Permits allows s.advance F m ∧ Reads allows s.advance H c m ∧ a = f (.inr c)) := by
  have between := between_iff (s := s) (t := t) (P := fun n v =>
    (∃ b, Derives allows F n v b ∧ a = f (.inl b)) ∨
      ∃ c, allows β F n v ∧ Derives allows H n v c ∧ a = f (.inr c))
  simp only [Reads, Derives.prefer_iff]
  rw [between]
  constructor
  · rintro ⟨complete, kind, m, closes, rfl, v, spells, ⟨b, derives, rfl⟩ | ⟨c, allowed, derives, rfl⟩⟩
    · have ahead := s.advance_within.complete complete
      exact ⟨complete, kind, m, closes, rfl, Or.inl ⟨b, ⟨ahead, v, spells, derives⟩, rfl⟩⟩
    · have ahead := s.advance_within.complete complete
      exact ⟨complete, kind, m, closes, rfl,
        Or.inr ⟨c, ⟨v, spells, allowed⟩, ⟨ahead, v, spells, derives⟩, rfl⟩⟩
  · rintro ⟨complete, kind, m, closes, rfl, ⟨b, ⟨_, v, spells, derives⟩, rfl⟩ |
      ⟨c, ⟨v, spells, allowed⟩, ⟨_, v', spells', derives⟩, rfl⟩⟩
    · exact ⟨complete, kind, m, closes, rfl, v, spells, Or.inl ⟨b, derives, rfl⟩⟩
    · have same : v = v' := spells.word_unique spells'
      subst same
      exact ⟨complete, kind, m, closes, rfl, v, spells, Or.inr ⟨c, allowed, derives, rfl⟩⟩

theorem many_nil_iff {F : Form α} :
    Reads allows s (Form.many F) [] t ↔ s.Complete ∧ t = s := by
  simp only [Reads, Derives.many_nil_iff]
  constructor
  · rintro ⟨complete, _, spells, rfl⟩
    exact ⟨complete, State.spells_nil_iff.mp spells⟩
  · rintro ⟨complete, rfl⟩
    exact ⟨complete, [], .refl t, rfl⟩

theorem many_cons_iff {F : Form α} {a : α} {items : List α} :
    Reads allows s (Form.many F) (a :: items) t ↔
      ∃ m, Reads allows s F a m ∧ Reads allows m (Form.many F) items t := by
  simp only [Reads, Derives.many_cons_iff]
  constructor
  · rintro ⟨complete, _, spells, u, v, rfl, first, rest⟩
    obtain ⟨m, before, after⟩ := spells.split
    have parameters : m.parameters = s.parameters + u.questions := before.parameters
    exact ⟨m, ⟨complete, u, before, first⟩, before.within.complete complete, v, after,
      parameters ▸ rest⟩
  · rintro ⟨m, ⟨complete, u, before, first⟩, _, v, after, rest⟩
    have parameters : m.parameters = s.parameters + u.questions := before.parameters
    exact ⟨complete, u ++ v, before.trans after, u, v, rfl, first, parameters ▸ rest⟩

theorem separated_iff {k : Kind} {F : Form α} {items : List α} :
    Reads allows s (Form.separated k F) items t ↔ ∃ a rest m, items = a :: rest ∧
      Reads allows s F a m ∧ Reads allows m (Form.many (Form.mark k *> F)) rest t := by
  simp only [Form.separated, seq_iff, map_iff]
  constructor
  · rintro ⟨_, rest, m, ⟨a, first, rfl⟩, others, rfl⟩
    exact ⟨a, rest, m, rfl, first, others⟩
  · rintro ⟨a, rest, m, rfl, first, others⟩
    exact ⟨_, rest, m, ⟨a, first, rfl⟩, others, rfl⟩

theorem optional_iff {F : Form α} {o : Option α} : Reads allows s (Form.optional F) o t ↔
    (∃ a, o = some a ∧ Reads allows s F a t) ∨ o = none ∧ s.Complete ∧ t = s := by
  simp only [Form.optional, or_iff, map_iff, pure_iff]
  constructor
  · rintro (⟨a, h, rfl⟩ | ⟨complete, rfl, rfl⟩)
    · exact Or.inl ⟨a, rfl, h⟩
    · exact Or.inr ⟨rfl, complete, rfl⟩
  · rintro (⟨a, rfl, h⟩ | ⟨rfl, complete, rfl⟩)
    · exact Or.inl ⟨a, h, rfl⟩
    · exact Or.inr ⟨complete, rfl, rfl⟩

theorem flag_iff {k : Keyword} {b : Bool} : Reads allows s (Form.flag k) b t ↔
    s.Complete ∧ (b = true ∧ s.kind = .keyword k ∧ t = s.advance ∨ b = false ∧ t = s) := by
  simp only [Form.flag, or_iff, map_iff, word_iff, pure_iff]
  constructor
  · rintro (⟨_, ⟨complete, kind, rfl⟩, rfl⟩ | ⟨complete, rfl, rfl⟩)
    · exact ⟨complete, Or.inl ⟨rfl, kind, rfl⟩⟩
    · exact ⟨complete, Or.inr ⟨rfl, rfl⟩⟩
  · rintro ⟨complete, ⟨rfl, kind, rfl⟩ | ⟨rfl, rfl⟩⟩
    · exact Or.inl ⟨(), ⟨complete, kind, rfl⟩, rfl⟩
    · exact Or.inr ⟨complete, rfl, rfl⟩

theorem name_iff {a : String} : Reads allows s Grammar.name a t ↔
    s.Complete ∧ s.kind = .identifier ∧ a = s.token.value ∧ t = s.advance :=
  text_iff ⟨rfl, by simp⟩

theorem functionWord_iff {a : String} : Reads allows s Grammar.functionWord a t ↔
    ∃ j, s.kind = .keyword j ∧ j.isFunctionName = true ∧ s.Complete ∧ a = s.token.raw ∧
      t = s.advance := by
  rw [Grammar.functionWord_eq]
  constructor
  · intro reads
    obtain ⟨complete, _, value, rfl⟩ := symbol_iff.mp reads
    simp only [Token.symbol] at value
    split at value
    · rename_i j kind
      split at value
      · rename_i isName
        cases value
        have notQuestion : s.kind ≠ .question := by rw [show s.kind = _ from kind]; simp
        exact ⟨j, kind, isName, complete, by simp [Token.value, kind], State.next_eq_advance notQuestion⟩
      · cases value
    · cases value
  · rintro ⟨j, kind, isName, complete, rfl, rfl⟩
    have notQuestion : s.kind ≠ .question := by rw [kind]; simp
    have kind' : s.token.kind = .keyword j := kind
    refine symbol_iff.mpr ⟨complete, ?_, ?_, (State.next_eq_advance notQuestion).symm⟩
    · simp [Token.symbol, Symbol.isPlain, kind', Kind.isTerminal]
    · simp [Token.symbol, Token.value, kind', isName]

end Reads

/-- Where first readings are preferred, the second reading is allowed where the first one cannot be
read. -/
theorem permits_first_iff {α : Type} {s t : State} {F : Form α} (complete : s.Complete)
    (within : ∃ w, s.Spells w t) :
    Permits firstReading s F t ↔ ¬∃ a, Reads anyReading s F a t := by
  obtain ⟨w, spells⟩ := within
  constructor
  · rintro ⟨v, spells', none⟩ ⟨a, _, u, spells'', derives⟩
    obtain rfl := spells'.word_unique spells''
    exact none ⟨a, derives⟩
  · intro none
    refine ⟨w, spells, fun ⟨a, derives⟩ => none ⟨a, complete, w, spells, derives⟩⟩

end SelectSyntax.Parse
