import SelectSyntax.Proofs.Reading
import SelectSyntax.Proofs.Progress

/-!
Parsers that accept only what is derived: a parser gives a value only where a form is read with that value.
Where the second reading of a parenthesis is not allowed everywhere, the parser of queries has to find every
query in a parenthesis.
-/

set_option autoImplicit false
set_option relaxedAutoImplicit false

namespace SelectSyntax.Parse

open Grammar (Allows)
open Token (Kind Keyword)
open SyntaxTree

/-- A parser that gives a value only where a form is read with that value, as long as fewer than so many
tokens are left. -/
def Sound (allows : Allows) (bound : Nat) {α : Type} (p : Parser α) (F : Form α) : Prop :=
  ∀ s a t, s.Complete → s.remaining < bound → p s = .ok a t → Reads allows s F a t

section
variable {allows : Allows} {n : Nat} {α β : Type}

/-- A parser of an item that may be missing, against the form of the item. -/
def SoundItem (allows : Allows) (bound : Nat) (item? : Parser (Option α)) (F : Form α) : Prop :=
  ∀ s o t, s.Complete → s.remaining < bound → item? s = .ok o t →
    (∃ a, o = some a ∧ Reads allows s F a t) ∨ o = none ∧ t = s

theorem SoundItem.many {item? : Parser (Option α)} {F : Form α} (h : SoundItem allows n item? F) :
    Sound allows n (many item?) (Form.many F) := by
  have within : ∀ k, Sound allows n (manyWithin item? k) (Form.many F) := by
    intro k
    induction k with
    | zero =>
        intro s items t complete _ run
        obtain ⟨rfl, rfl⟩ := pure_eq_ok.mp run
        exact Reads.many_nil_iff.mpr ⟨complete, rfl⟩
    | succ k ih =>
        intro s items t complete less run
        obtain ⟨o, m, first, next⟩ := bind_eq_ok.mp run
        rcases h s o m complete less first with ⟨a, rfl, reads⟩ | ⟨rfl, rfl⟩
        · obtain ⟨rest, u, others, last⟩ := bind_eq_ok.mp next
          obtain ⟨rfl, rfl⟩ := pure_eq_ok.mp last
          have fewer := reads.remaining_le
          exact Reads.many_cons_iff.mpr ⟨m, reads, ih m rest t reads.complete (by omega) others⟩
        · obtain ⟨rfl, rfl⟩ := pure_eq_ok.mp next
          exact Reads.many_nil_iff.mpr ⟨complete, rfl⟩
  exact fun s items t complete less run => within _ s items t complete less run

theorem Sound.after? {k : Kind} {p : Parser α} {F : Form α} (single : Reads.Single k)
    (h : Sound allows n p F) : SoundItem allows n (after? k p) (Form.mark k *> F) := by
  intro s o t complete less run
  obtain ⟨b, m, taken, next⟩ := bind_eq_ok.mp run
  rcases eat_eq_ok.mp taken with ⟨rfl, kind, rfl⟩ | ⟨rfl, _, rfl⟩
  · obtain ⟨a, u, read, last⟩ := bind_eq_ok.mp next
    obtain ⟨rfl, rfl⟩ := pure_eq_ok.mp last
    have ahead := s.advance_within.complete complete
    have fewer := s.advance_within.remaining_le
    refine Or.inl ⟨a, rfl, Reads.seqRight_iff.mpr ⟨(), s.advance, ?_, ?_⟩⟩
    · exact (Reads.mark_iff single).mpr ⟨complete, kind, rfl⟩
    · exact h _ a t ahead (by omega) read
  · obtain ⟨rfl, rfl⟩ := pure_eq_ok.mp next
    exact Or.inr ⟨rfl, rfl⟩

theorem SoundItem.optional {item? : Parser (Option α)} {F : Form α} (h : SoundItem allows n item? F) :
    Sound allows n item? (Form.optional F) := by
  intro s o t complete less run
  rcases h s o t complete less run with ⟨a, rfl, reads⟩ | ⟨rfl, rfl⟩
  · exact Reads.optional_iff.mpr (Or.inl ⟨a, rfl, reads⟩)
  · exact Reads.optional_iff.mpr (Or.inr ⟨rfl, complete, rfl⟩)

/-- A phrase with items after it: so lists, chains of operators and joins are read. -/
theorem Sound.withItems {γ : Type} {p : Parser α} {item? : Parser (Option β)} {F : Form α} {G : Form β}
    (f : α → List β → γ) (h : Sound allows n p F) (items : SoundItem allows n item? G) :
    Sound allows n
      (do
        let first ← p
        let rest ← many item?
        pure (f first rest)) (f <$> F <*> Form.many G) := by
  intro s c t complete less run
  obtain ⟨first, m, read, next⟩ := bind_eq_ok.mp run
  obtain ⟨rest, u, others, last⟩ := bind_eq_ok.mp next
  obtain ⟨rfl, rfl⟩ := pure_eq_ok.mp last
  have reads := h s first m complete less read
  have fewer := reads.remaining_le
  exact Reads.seq_iff.mpr ⟨_, rest, m, Reads.map_iff.mpr ⟨first, reads, rfl⟩,
    items.many m rest t reads.complete (by omega) others, rfl⟩

theorem Sound.separated {k : Kind} {p : Parser α} {F : Form α} (single : Reads.Single k)
    (h : Sound allows n p F) : Sound allows n (separated k p) (Form.separated k F) :=
  .withItems _ h (h.after? single)

theorem Sound.tail? {operator : Kind → Option BinaryOp} {p : Parser Expr} {F : Form Expr}
    (single : ∀ k op, operator k = some op → Reads.Single k) (h : Sound allows n p F) :
    SoundItem allows n (tail? operator p) (Prod.mk <$> Form.oneOf operator <*> F) := by
  intro s o t complete less run
  obtain ⟨op, m, taken, next⟩ := bind_eq_ok.mp run
  rcases take?_eq_ok.mp taken with ⟨op, rfl, value, rfl⟩ | ⟨rfl, _, rfl⟩
  · obtain ⟨right, u, read, last⟩ := bind_eq_ok.mp next
    obtain ⟨rfl, rfl⟩ := pure_eq_ok.mp last
    have ahead := s.advance_within.complete complete
    have fewer := s.advance_within.remaining_le
    refine Or.inl ⟨_, rfl, Reads.seq_iff.mpr ⟨_, right, s.advance,
      Reads.map_iff.mpr ⟨op, (Reads.oneOf_iff single).mpr ⟨complete, value, rfl⟩, rfl⟩, ?_, rfl⟩⟩
    exact h _ right t ahead (by omega) read
  · obtain ⟨rfl, rfl⟩ := pure_eq_ok.mp next
    exact Or.inr ⟨rfl, rfl⟩

theorem Sound.chain {operator : Kind → Option BinaryOp} {p : Parser Expr} {F : Form Expr}
    (single : ∀ k op, operator k = some op → Reads.Single k) (h : Sound allows n p F) :
    Sound allows n (chain operator p) (Form.chain operator F) :=
  .withItems _ h (h.tail? single)

theorem Sound.enclosed {p : Parser α} {F : Form α} (h : Sound allows n p F) :
    Sound allows n (enclosed p) (.parens F) := by
  intro s a t complete less run
  obtain ⟨kind, run⟩ := enclosed_eq_ok.mp run
  obtain ⟨m, read, closes, rfl⟩ := closed_eq_ok.mp run
  have ahead := s.advance_within.complete complete
  have fewer := s.advance_within.remaining_le
  exact Reads.parens_iff.mpr ⟨complete, kind, m, h _ a m ahead (by omega) read, closes, rfl⟩

variable (allows) in
/-- A path of names is read, with the star that ends it where there is one. -/
theorem columnPathWithin_sound (k : Nat) {s t : State} {path : List String × Bool}
    (complete : s.Complete) (run : columnPathWithin k s = .ok path t) :
    (path.2 = true ∧ Reads allows s (Form.many (Grammar.name <* Form.mark .dot) <* Form.mark .star)
        path.1 t) ∨ path.2 = false ∧ Reads allows s Grammar.path path.1 t := by
  have dot : Reads.Single .dot := ⟨rfl, by simp⟩
  have star : Reads.Single .star := ⟨rfl, by simp⟩
  induction k generalizing s path with
  | zero => cases run
  | succ k ih =>
      obtain ⟨b, m, taken, next⟩ := bind_eq_ok.mp run
      rcases eat_eq_ok.mp taken with ⟨rfl, kind, rfl⟩ | ⟨rfl, _, rfl⟩
      · obtain ⟨rfl, rfl⟩ := pure_eq_ok.mp next
        refine Or.inl ⟨rfl, Reads.seqLeft_iff.mpr ⟨(), s, Reads.many_nil_iff.mpr ⟨complete, rfl⟩, ?_⟩⟩
        exact (Reads.mark_iff star).mpr ⟨complete, kind, rfl⟩
      · obtain ⟨o, u, named, rest⟩ := bind_eq_ok.mp next
        rcases identifier?_eq_ok.mp named with ⟨rfl, kind, rfl⟩ | ⟨rfl, _, rfl⟩
        · have ahead := m.advance_within.complete complete
          have first : Reads allows m Grammar.name m.token.value m.advance :=
            Reads.name_iff.mpr ⟨complete, kind, rfl, rfl⟩
          obtain ⟨b, u, taken, rest⟩ := bind_eq_ok.mp rest
          rcases eat_eq_ok.mp taken with ⟨rfl, kind, rfl⟩ | ⟨rfl, _, rfl⟩
          · obtain ⟨path, v, others, last⟩ := bind_eq_ok.mp rest
            obtain ⟨rfl, rfl⟩ := pure_eq_ok.mp last
            have point : Reads allows m.advance (Form.mark .dot) () m.advance.advance :=
              (Reads.mark_iff dot).mpr ⟨ahead, kind, rfl⟩
            rcases ih point.complete others with ⟨ends, reads⟩ | ⟨ends, reads⟩
            · obtain ⟨u, v, names, last⟩ := Reads.seqLeft_iff.mp reads
              refine Or.inl ⟨ends, Reads.seqLeft_iff.mpr ⟨u, v, Reads.many_cons_iff.mpr
                ⟨_, Reads.seqLeft_iff.mpr ⟨(), _, first, point⟩, names⟩, last⟩⟩
            · obtain ⟨a, rest, v, same, second, names⟩ := Reads.separated_iff.mp reads
              refine Or.inr ⟨ends, Reads.separated_iff.mpr ⟨_, path.1, _, rfl, first, ?_⟩⟩
              rw [same]
              exact Reads.many_cons_iff.mpr ⟨v, Reads.seqRight_iff.mpr ⟨(), _, point, second⟩, names⟩
          · obtain ⟨rfl, rfl⟩ := pure_eq_ok.mp rest
            exact Or.inr ⟨rfl, Reads.separated_iff.mpr ⟨_, [], _, rfl, first,
              Reads.many_nil_iff.mpr ⟨ahead, rfl⟩⟩⟩
        · cases rest

theorem identifier_sound : Sound allows n identifier Grammar.name := by
  intro s a t complete _ run
  obtain ⟨kind, rfl, rfl⟩ := identifier_eq_ok.mp run
  exact Reads.name_iff.mpr ⟨complete, kind, rfl, rfl⟩

private theorem identifierList_sound :
    Sound allows n identifierList (.parens (Form.commas Grammar.name)) := by
  intro s a t complete less run
  obtain ⟨_, m, opens, next⟩ := bind_eq_ok.mp run
  obtain ⟨kind, rfl⟩ := expect_eq_ok.mp opens
  obtain ⟨names, u, read, rest⟩ := bind_eq_ok.mp next
  have ahead := s.advance_within.complete complete
  have fewer := s.advance_within.remaining_le
  have reads : Reads allows s.advance (Form.commas Grammar.name) names u :=
    (identifier_sound (n := n)).separated ⟨rfl, by simp⟩ _ _ _ ahead (by omega) read
  obtain ⟨b, v, taken, last⟩ := bind_eq_ok.mp rest
  rcases eat_eq_ok.mp taken with ⟨rfl, closes, rfl⟩ | ⟨rfl, _, rfl⟩
  · obtain ⟨rfl, rfl⟩ := pure_eq_ok.mp last
    exact Reads.parens_iff.mpr ⟨complete, kind, u, reads, closes, rfl⟩
  · cases last

theorem optionalColumns_sound : Sound allows n optionalColumns Grammar.columns := by
  intro s a t complete less run
  obtain ⟨k, m, looked, next⟩ := bind_eq_ok.mp run
  obtain ⟨rfl, rfl⟩ := kind_eq_ok.mp looked
  split at next
  · exact Reads.or_iff.mpr (Or.inl (identifierList_sound m a t complete less next))
  · obtain ⟨rfl, rfl⟩ := pure_eq_ok.mp next
    exact Reads.or_iff.mpr (Or.inr (Reads.pure_iff.mpr ⟨complete, rfl, rfl⟩))

theorem requiredAlias_sound : Sound allows n requiredAlias Grammar.nameAfterAs := by
  intro s a t complete less run
  obtain ⟨b, m, taken, next⟩ := bind_eq_ok.mp run
  rcases eat_eq_ok.mp taken with ⟨rfl, kind, rfl⟩ | ⟨rfl, _, rfl⟩
  · have ahead := s.advance_within.complete complete
    have fewer := s.advance_within.remaining_le
    exact Reads.or_iff.mpr (Or.inl (Reads.seqRight_iff.mpr ⟨(), s.advance,
      Reads.word_iff.mpr ⟨complete, kind, rfl⟩, identifier_sound (n := n) _ _ _ ahead (by omega) next⟩))
  · obtain ⟨o, u, named, last⟩ := bind_eq_ok.mp next
    rcases identifier?_eq_ok.mp named with ⟨rfl, kind, rfl⟩ | ⟨rfl, _, rfl⟩
    · obtain ⟨rfl, rfl⟩ := pure_eq_ok.mp last
      exact Reads.or_iff.mpr (Or.inr (Reads.name_iff.mpr ⟨complete, kind, rfl, rfl⟩))
    · cases last

theorem optionalAlias_sound : Sound allows n optionalAlias (Form.optional Grammar.nameAfterAs) := by
  intro s o t complete less run
  obtain ⟨b, m, taken, next⟩ := bind_eq_ok.mp run
  rcases eat_eq_ok.mp taken with ⟨rfl, kind, rfl⟩ | ⟨rfl, _, rfl⟩
  · obtain ⟨a, read, rfl⟩ := map_eq_ok.mp next
    have ahead := s.advance_within.complete complete
    have fewer := s.advance_within.remaining_le
    exact Reads.optional_iff.mpr (Or.inl ⟨a, rfl, Reads.or_iff.mpr (Or.inl (Reads.seqRight_iff.mpr
      ⟨(), s.advance, Reads.word_iff.mpr ⟨complete, kind, rfl⟩,
        identifier_sound (n := n) _ _ _ ahead (by omega) read⟩))⟩)
  · rcases identifier?_eq_ok.mp next with ⟨rfl, kind, rfl⟩ | ⟨rfl, _, rfl⟩
    · exact Reads.optional_iff.mpr (Or.inl ⟨_, rfl, Reads.or_iff.mpr
        (Or.inr (Reads.name_iff.mpr ⟨complete, kind, rfl, rfl⟩))⟩)
    · exact Reads.optional_iff.mpr (Or.inr ⟨rfl, complete, rfl⟩)

end

theorem OfOperators.single {α : Type} {read : Kind → Option α} (h : OfOperators read) (k : Kind) (a : α)
    (found : read k = some a) : Reads.Single k := by
  have operator := h k a found
  unfold isOperator at operator
  split at operator <;> first | exact ⟨rfl, by simp⟩ | cases operator

theorem truthValue?_single (k : Kind) (v : TruthValue) (h : truthValue? k = some v) :
    Reads.Single k := by
  unfold truthValue? at h
  split at h <;> first | exact ⟨rfl, by simp⟩ | cases h

namespace Reads

variable {allows : Allows} {s t : State}

theorem comparison_iff {op : BinaryOp} : Reads allows s Grammar.comparison op t ↔
    s.Complete ∧ BinaryOp.comparison? s.kind = some op ∧ t = s.advance := by
  rw [Grammar.comparison_eq]
  exact oneOf_iff comparison?_operators.single

theorem quantifier_iff {q : Quantifier} : Reads allows s Grammar.quantifier q t ↔
    s.Complete ∧ Quantifier.ofKind? s.kind = some q ∧ t = s.advance := by
  rw [Grammar.quantifier_eq]
  exact oneOf_iff quantifier?_operators.single

theorem truthValue_iff {v : TruthValue} : Reads allows s Grammar.truthValue v t ↔
    s.Complete ∧ truthValue? s.kind = some v ∧ t = s.advance := by
  rw [Grammar.truthValue_eq]
  exact oneOf_iff truthValue?_single

/-- A symbol whose kind has a value, or nothing for a value of its own. -/
private theorem oneOf_or_iff {α : Type} {read : Kind → Option α} {a d : α} (operators : OfOperators read) :
    Reads allows s (Form.oneOf read <|> pure d) a t ↔
      s.Complete ∧ (read s.kind = some a ∧ t = s.advance ∨ a = d ∧ t = s) := by
  rw [or_iff, oneOf_iff operators.single, pure_iff, ← and_or_left]

theorem setQuantifier_iff {q : SetQuantifier} : Reads allows s Grammar.setQuantifier q t ↔
    s.Complete ∧ (setQuantifier? s.kind = some q ∧ t = s.advance ∨ q = .unspecified ∧ t = s) := by
  rw [Grammar.setQuantifier_eq]
  exact oneOf_or_iff setQuantifier?_operators

theorem direction_iff {d : Direction} : Reads allows s Grammar.direction d t ↔
    s.Complete ∧ (direction? s.kind = some d ∧ t = s.advance ∨ d = .unspecified ∧ t = s) := by
  rw [Grammar.direction_eq]
  exact oneOf_or_iff direction?_operators

end Reads

/-- The parser of queries goes forward, and the second reading of a parenthesis is allowed wherever it does
not find the first one. -/
structure Guards (allows : Allows) (bound : Nat) (i : Inner) : Prop where
  forward : Forward (i .query)
  permits : ∀ s m w, s.Complete → s.remaining < bound → s.Spells w m → m.kind = .rightParen →
    (startsQuery s.kind = true → ∃ f u, closed (i .query) s = .error f u) →
      Permits allows s (Form.construct .query) m

theorem flag_of_kind {allows : Allows} {k : Keyword} {s : State} (complete : s.Complete)
    (word : s.kind = .keyword k) : Reads allows s (Form.flag k) true s.advance :=
  Reads.flag_iff.mpr ⟨complete, Or.inl ⟨rfl, word, rfl⟩⟩

section
variable {allows : Allows} {n : Nat} {i : Inner}
  (inside : ∀ e, Sound allows n (i e) (Form.construct e))
include inside

/-- A parenthesis is read as a query, or as something else that is no query. -/
theorem parenthesized_sound {α : Type} {other : Parser α} {H : Form α} {s t : State}
    {x : Statement ⊕ α} (forward : Forward (i .query)) (second : Sound allows n other H) (complete : s.Complete)
    (less : s.remaining < n + 1) (run : parenthesized (i .query) other s = .ok x t) :
    s.kind = .leftParen ∧ ∃ m, m.kind = .rightParen ∧ t = m.advance ∧
      ((∃ q, x = .inl q ∧ Reads allows s.advance (Form.construct .query) q m) ∨
        ∃ b, x = .inr b ∧ Reads allows s.advance H b m ∧
          (startsQuery s.advance.kind = true → ∃ f u, closed (i .query) s.advance = .error f u)) := by
  obtain ⟨kind, readings⟩ := parenthesized_eq_ok (forward.returns_closed complete) run
  have ahead := s.advance_within.complete complete
  have fewer := complete.remaining_advance (by rw [kind]; rfl)
  refine ⟨kind, ?_⟩
  rcases readings with ⟨q, rfl, _, read⟩ | ⟨b, rfl, read, fails⟩
  · obtain ⟨m, first, closes, rfl⟩ := closed_eq_ok.mp read
    exact ⟨m, closes, rfl, Or.inl ⟨q, rfl, inside .query _ q m ahead (by omega) first⟩⟩
  · obtain ⟨m, last, closes, rfl⟩ := closed_eq_ok.mp read
    exact ⟨m, closes, rfl, Or.inr ⟨b, rfl, second _ b m ahead (by omega) last, fails⟩⟩

theorem parenthesized_prefer {α β : Type} {other : Parser α} {H : Form α} {s t : State}
    {x : Statement ⊕ α} (f : Statement ⊕ α → β) (guards : Guards allows n i)
    (second : Sound allows n other H) (complete : s.Complete) (less : s.remaining < n + 1)
    (run : parenthesized (i .query) other s = .ok x t) :
    Reads allows s (.prefer (Form.construct .query) H f) (f x) t := by
  obtain ⟨kind, m, closes, rfl, readings⟩ := parenthesized_sound inside guards.forward second complete less run
  refine Reads.prefer_iff.mpr ⟨complete, kind, m, closes, rfl, ?_⟩
  rcases readings with ⟨q, rfl, reads⟩ | ⟨b, rfl, reads, fails⟩
  · exact Or.inl ⟨q, reads, rfl⟩
  · have fewer := complete.remaining_advance (by rw [kind]; rfl)
    obtain ⟨ahead, w, spells, _⟩ := id reads
    exact Or.inr ⟨b, guards.permits _ m w ahead (by omega) spells closes fails, reads, rfl⟩

theorem conditions_sound : Sound allows n (conditions i) Grammar.conditions :=
  Sound.separated ⟨rfl, by simp⟩ (inside .condition)

theorem after_token {e : Entry} {s t : State} {a : e.Result} (complete : s.Complete)
    (less : s.remaining < n + 1) (live : s.kind.isTerminal = false)
    (run : i e s.advance = .ok a t) : Reads allows s.advance (Form.construct e) a t := by
  have fewer := complete.remaining_advance live
  exact inside e _ a t (s.advance_within.complete complete) (by omega) run

end

end SelectSyntax.Parse
