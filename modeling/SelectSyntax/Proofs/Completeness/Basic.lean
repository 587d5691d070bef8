import SelectSyntax.Proofs.Soundness

/-!
Parsers that accept all that is derived: where a form is read with first readings preferred, and the token after
it cannot go on with it, the parser reads the same value up to the same state.
-/

set_option autoImplicit false
set_option relaxedAutoImplicit false

namespace SelectSyntax.Parse

open Grammar (anyReading firstReading)
open Token (Kind Keyword)
open SyntaxTree

/-- A parser that reads a form wherever it can be read with first readings preferred, as long as fewer
than so many tokens are left, and the token after the phrase is one that ends it. -/
def Exact (bound : Nat) {α : Type} (p : Parser α) (F : Form α) (ends : Kind → Bool) : Prop :=
  ∀ s a t, s.remaining < bound → Reads firstReading s F a t → ends t.kind = true → p s = .ok a t

/-- A parser of an item that may be missing, against the form of the item. An item is read where the
token after it ends it, as each token does that another item starts with; where the token is one to stop
at there is no item. -/
structure ExactItem (bound : Nat) {α : Type} (item? : Parser (Option α)) (F : Form α)
    (ends stops : Kind → Bool) : Prop where
  reads : ∀ s a t, s.remaining < bound → Reads firstReading s F a t → ends t.kind = true →
    item? s = .ok (some a) t
  starts : ∀ s a t, Reads firstReading s F a t → ends s.kind = true ∧ t.remaining < s.remaining
  none : ∀ t, stops t.kind = true → ends t.kind = true ∧ item? t = .ok none t

section
variable {n : Nat} {α β : Type} {ends stops : Kind → Bool}

/-- Where items are read, each of them is ended by the next one or by the token to stop at. -/
theorem ExactItem.ends_many {item? : Parser (Option α)} {F : Form α}
    (h : ExactItem n item? F ends stops) {s t : State} {items : List α}
    (reads : Reads firstReading s (Form.many F) items t) (halts : stops t.kind = true) :
    ends s.kind = true := by
  cases items with
  | nil =>
      obtain ⟨_, rfl⟩ := Reads.many_nil_iff.mp reads
      exact (h.none t halts).1
  | cons a items =>
      obtain ⟨m, first, _⟩ := Reads.many_cons_iff.mp reads
      exact (h.starts s a m first).1

theorem ExactItem.many {item? : Parser (Option α)} {F : Form α} (h : ExactItem n item? F ends stops) :
    Exact n (many item?) (Form.many F) stops := by
  have within : ∀ (k : Nat) (s : State) (items : List α) (t : State), s.remaining ≤ k →
      s.remaining < n → Reads firstReading s (Form.many F) items t → stops t.kind = true →
      manyWithin item? k s = .ok items t := by
    intro k
    induction k with
    | zero =>
        intro s items t le less reads halts
        cases items with
        | nil =>
            obtain ⟨_, rfl⟩ := Reads.many_nil_iff.mp reads
            rfl
        | cons a items =>
            obtain ⟨m, first, _⟩ := Reads.many_cons_iff.mp reads
            have fewer := (h.starts s a m first).2
            omega
    | succ k ih =>
        intro s items t le less reads halts
        cases items with
        | nil =>
            obtain ⟨_, rfl⟩ := Reads.many_nil_iff.mp reads
            exact bind_eq_ok.mpr ⟨_, _, (h.none t halts).2, rfl⟩
        | cons a items =>
            obtain ⟨m, first, rest⟩ := Reads.many_cons_iff.mp reads
            have fewer := (h.starts s a m first).2
            have read := h.reads s a m less first (h.ends_many rest halts)
            exact bind_eq_ok.mpr ⟨_, m, read, bind_eq_ok.mpr ⟨items, t,
              ih m items t (by omega) (by omega) rest halts, rfl⟩⟩
  exact fun s items t less reads halts => within _ s items t (Nat.le_refl _) less reads halts

theorem ExactItem.optional {item? : Parser (Option α)} {F : Form α}
    (h : ExactItem n item? F ends stops) : Exact n item? (Form.optional F) stops := by
  intro s o t less reads halts
  rcases Reads.optional_iff.mp reads with ⟨a, rfl, present⟩ | ⟨rfl, _, rfl⟩
  · exact h.reads s a t less present (h.none t halts).1
  · exact (h.none t halts).2

/-- A phrase after a mark is shorter than what is left at the mark. -/
theorem Reads.mark_strict {k : Kind} (single : Reads.Single k) {F : Form α} {s t : State} {a : α}
    (reads : Reads firstReading s (Form.mark k *> F) a t) :
    s.kind = k ∧ t.remaining < s.remaining ∧ Reads firstReading s.advance F a t := by
  obtain ⟨_, m, first, second⟩ := Reads.seqRight_iff.mp reads
  obtain ⟨complete, kind, rfl⟩ := (Reads.mark_iff single).mp first
  have plain := single.1
  simp only [Symbol.isPlain, Bool.and_eq_true, Bool.not_eq_true'] at plain
  have fewer := complete.remaining_advance (by rw [kind]; exact plain.2)
  have fewer' := second.remaining_le
  exact ⟨kind, by omega, second⟩

theorem Exact.after? {k : Kind} {p : Parser α} {F : Form α} (single : Reads.Single k)
    (h : Exact n p F ends) (mark : ends k = true) :
    ExactItem n (after? k p) (Form.mark k *> F) ends fun j => ends j && j != k where
  reads s a t less reads halts := by
    obtain ⟨kind, _, second⟩ := Reads.mark_strict single reads
    have fewer := s.advance_within.remaining_le
    exact bind_eq_ok.mpr ⟨true, _, eat_of_kind kind, bind_eq_ok.mpr
      ⟨a, t, h _ a t (by omega) second halts, rfl⟩⟩
  starts s a t reads := by
    obtain ⟨kind, fewer, _⟩ := Reads.mark_strict single reads
    exact ⟨kind ▸ mark, fewer⟩
  none t halts := by
    simp only [Bool.and_eq_true, bne_iff_ne] at halts
    exact ⟨halts.1, bind_eq_ok.mpr ⟨false, t, eat_of_ne halts.2, rfl⟩⟩

theorem Exact.mono {p : Parser α} {F : Form α} (h : Exact n p F ends)
    (less : ∀ k, stops k = true → ends k = true) : Exact n p F stops :=
  fun s a t le reads halts => h s a t le reads (less _ halts)

/-- A phrase with items after it, where the phrase is ended by an item or by what ends the items. -/
theorem Exact.withItems {γ : Type} {p : Parser α} {item? : Parser (Option β)} {F : Form α} {G : Form β}
    (f : α → List β → γ) (h : Exact n p F ends) (item : ExactItem n item? G ends stops) :
    Exact n
      (do
        let first ← p
        let rest ← many item?
        pure (f first rest)) (f <$> F <*> Form.many G) stops := by
  intro s c t less reads halts
  obtain ⟨_, rest, m, head, others, rfl⟩ := Reads.seq_iff.mp reads
  obtain ⟨first, phrase, rfl⟩ := Reads.map_iff.mp head
  have fewer := phrase.remaining_le
  exact bind_eq_ok.mpr ⟨first, m, h s first m less phrase (item.ends_many others halts), bind_eq_ok.mpr
    ⟨rest, t, item.many m rest t (by omega) others halts, rfl⟩⟩

theorem Exact.separated {k : Kind} {p : Parser α} {F : Form α} (single : Reads.Single k)
    (h : Exact n p F ends) (mark : ends k = true) :
    Exact n (separated k p) (Form.separated k F) fun j => ends j && j != k :=
  .withItems _ h (h.after? single mark)

private theorem tail_parts {operator : Kind → Option BinaryOp} {F : Form Expr} {s t : State}
    {a : BinaryOp × Expr} (single : ∀ k op, operator k = some op → Reads.Single k)
    (reads : Reads firstReading s (Prod.mk <$> Form.oneOf operator <*> F) a t) :
    operator s.kind = some a.1 ∧ t.remaining < s.remaining ∧ Reads firstReading s.advance F a.2 t := by
  obtain ⟨_, right, m, first, second, rfl⟩ := Reads.seq_iff.mp reads
  obtain ⟨op, sign, rfl⟩ := Reads.map_iff.mp first
  obtain ⟨complete, value, rfl⟩ := (Reads.oneOf_iff single).mp sign
  have plain := (single _ _ value).1
  simp only [Symbol.isPlain, Bool.and_eq_true, Bool.not_eq_true'] at plain
  have fewer := complete.remaining_advance plain.2
  have fewer' := second.remaining_le
  exact ⟨value, by omega, second⟩

theorem Exact.tail? {operator : Kind → Option BinaryOp} {p : Parser Expr} {F : Form Expr}
    (single : ∀ k op, operator k = some op → Reads.Single k) (h : Exact n p F ends)
    (marks : ∀ k op, operator k = some op → ends k = true) :
    ExactItem n (tail? operator p) (Prod.mk <$> Form.oneOf operator <*> F) ends
      fun k => ends k && (operator k).isNone where
  reads s a t less reads halts := by
    obtain ⟨value, _, second⟩ := tail_parts single reads
    have fewer := s.advance_within.remaining_le
    exact bind_eq_ok.mpr ⟨some a.1, _, take?_eq_ok.mpr (Or.inl ⟨a.1, rfl, value, rfl⟩),
      bind_eq_ok.mpr ⟨a.2, t, h _ a.2 t (by omega) second halts, rfl⟩⟩
  starts s a t reads := by
    obtain ⟨value, fewer, _⟩ := tail_parts single reads
    exact ⟨marks _ _ value, fewer⟩
  none t halts := by
    simp only [Bool.and_eq_true, Option.isNone_iff_eq_none] at halts
    exact ⟨halts.1, bind_eq_ok.mpr ⟨none, t, take?_eq_ok.mpr (Or.inr ⟨rfl, halts.2, rfl⟩), rfl⟩⟩

theorem Exact.chain {operator : Kind → Option BinaryOp} {p : Parser Expr} {F : Form Expr}
    (single : ∀ k op, operator k = some op → Reads.Single k) (h : Exact n p F ends)
    (marks : ∀ k op, operator k = some op → ends k = true) :
    Exact n (chain operator p) (Form.chain operator F) fun k => ends k && (operator k).isNone :=
  .withItems _ h (h.tail? single marks)

theorem Exact.enclosed {p : Parser α} {F : Form α} {s t : State} {a : α} (h : Exact n p F ends)
    (closing : ends .rightParen = true) (less : s.advance.remaining < n)
    (reads : Reads firstReading s (.parens F) a t) : enclosed p s = .ok a t := by
  obtain ⟨_, kind, m, inside, closes, rfl⟩ := Reads.parens_iff.mp reads
  exact enclosed_eq_ok.mpr ⟨kind, closed_of_kind (h _ a m less inside (closes ▸ closing)) closes⟩

end

def endsPrimary (k : Kind) : Bool := k != .dot && k != .leftParen

def endsRow (k : Kind) : Bool :=
  endsPrimary k && (power? k).isNone && (BinaryOp.product? k).isNone && (BinaryOp.sum? k).isNone

/-- The kinds that end a condition without `AND` and `OR`. -/
def endsTest (k : Kind) : Bool :=
  endsRow k && (BinaryOp.comparison? k).isNone &&
    !([Kind.keyword .NOT, .keyword .BETWEEN, .keyword .IN, .keyword .LIKE, .keyword .ESCAPE,
      .keyword .IS].contains k)

def endsCondition (k : Kind) : Bool := endsTest k && (and? k).isNone && (or? k).isNone

/-- The kinds that end an entry of a select list. -/
def endsProjection (k : Kind) : Bool := endsRow k && k != .keyword .AS && k != .identifier

/-- The kinds that end a table reference that is no join. -/
def endsTablePrimary (k : Kind) : Bool := endsPrimary k && k != .keyword .AS && k != .identifier

/-- The kinds that end a table reference, and the right side of a join. -/
def endsJoin (k : Kind) : Bool := endsTablePrimary k && endsCondition k && k != .keyword .ON

def joinStart : List Kind :=
  [.keyword .NATURAL, .keyword .CROSS, .keyword .INNER, .keyword .LEFT, .keyword .RIGHT,
    .keyword .FULL, .keyword .JOIN]

def endsTable (k : Kind) : Bool := endsJoin k && !joinStart.contains k

def endsBlock (k : Kind) : Bool :=
  endsTable k && !([Kind.comma, .keyword .FROM, .keyword .WHERE, .keyword .GROUP,
    .keyword .HAVING].contains k)

def endsBody (k : Kind) : Bool := endsBlock k && (intersect? k).isNone && (unionOrExcept? k).isNone

def endsQuery (k : Kind) : Bool := endsBody k && k != .keyword .ORDER && (direction? k).isNone

def Entry.ends : Entry → Kind → Bool
  | .query => endsQuery
  | .body => endsBody
  | .condition => endsCondition
  | .negated => endsTest
  | .signed => endsPrimary
  | .table => endsTable

theorem power?_ends (k : Kind) (op : BinaryOp) (h : power? k = some op) : endsPrimary k = true := by
  cases k <;> first | (simp [power?] at h; done) | rfl

theorem product?_ends (k : Kind) (op : BinaryOp) (h : BinaryOp.product? k = some op) :
    (endsPrimary k && (power? k).isNone) = true := by
  cases k <;> first | (simp [BinaryOp.product?] at h; done) | rfl

theorem sum?_ends (k : Kind) (op : BinaryOp) (h : BinaryOp.sum? k = some op) :
    (endsPrimary k && (power? k).isNone && (BinaryOp.product? k).isNone) = true := by
  cases k <;> first | (simp [BinaryOp.sum?] at h; done) | rfl

theorem comparison?_ends (k : Kind) (op : BinaryOp) (h : BinaryOp.comparison? k = some op) :
    endsRow k = true := by
  cases k <;> first | (simp [BinaryOp.comparison?] at h; done) | rfl

theorem and?_ends (k : Kind) (op : BinaryOp) (h : and? k = some op) : endsTest k = true := by
  unfold and? at h
  split at h <;> first | rfl | cases h

theorem or?_ends (k : Kind) (op : BinaryOp) (h : or? k = some op) :
    (endsTest k && (and? k).isNone) = true := by
  unfold or? at h
  split at h <;> first | rfl | cases h

theorem direction?_ends (k : Kind) (d : Direction) (h : direction? k = some d) : endsRow k = true := by
  unfold direction? at h
  split at h <;> first | rfl | cases h

theorem intersect?_ends (k : Kind) (op : SetOp) (h : intersect? k = some op) : endsBlock k = true := by
  unfold intersect? at h
  split at h <;> first | rfl | cases h

theorem unionOrExcept?_ends (k : Kind) (op : SetOp) (h : unionOrExcept? k = some op) :
    (endsBlock k && (intersect? k).isNone) = true := by
  unfold unionOrExcept? at h
  split at h <;> first | rfl | cases h

theorem joinStart_ends (k : Kind) (h : k ∈ joinStart) : endsJoin k = true := by
  simp only [joinStart, List.mem_cons, List.not_mem_nil, or_false] at h
  rcases h with rfl | rfl | rfl | rfl | rfl | rfl | rfl <;> rfl

/-- What ends a block ends each of its clauses, and starts none of those that may still come. -/
theorem endsBlock_le {k : Kind} (h : endsBlock k = true) :
    (endsProjection k && k != .comma) = true ∧
      (endsTable k && k != .comma && k != .keyword .FROM) = true ∧
      (endsCondition k && k != .keyword .WHERE) = true ∧
      (endsRow k && k != .comma && k != .keyword .GROUP) = true ∧
      (endsCondition k && k != .keyword .HAVING) = true := by
  simp only [endsBlock, Bool.and_eq_true, Bool.not_eq_true', List.contains_eq_mem,
    decide_eq_false_iff_not, List.mem_cons, List.not_mem_nil, or_false, not_or] at h
  obtain ⟨table, noComma, noFrom, noWhere, noGroup, noHaving⟩ := h
  have parts := table
  simp only [endsTable, endsJoin, endsTablePrimary, Bool.and_eq_true, bne_iff_ne] at parts
  obtain ⟨⟨⟨⟨⟨_, noAs⟩, noName⟩, condition⟩, _⟩, _⟩ := parts
  have row := condition
  simp only [endsCondition, endsTest, Bool.and_eq_true] at row
  simp [endsProjection, table, condition, row.1.1.1.1, noAs, noName, noComma, noFrom, noWhere, noGroup,
    noHaving]

/-- What ends a query ends its body, and the keys that it is ordered by. -/
theorem endsQuery_le {k : Kind} (h : endsQuery k = true) :
    endsBody k = true ∧
      ((endsRow k && (direction? k).isNone && k != .comma) && k != .keyword .ORDER) = true := by
  simp only [endsQuery, Bool.and_eq_true, bne_iff_ne] at h
  obtain ⟨⟨body, noOrder⟩, noDirection⟩ := h
  have block := body
  simp only [endsBody, Bool.and_eq_true] at block
  have grouping := (endsBlock_le block.1.1).2.2.2.1
  simp only [Bool.and_eq_true, bne_iff_ne] at grouping
  simp [body, noOrder, noDirection, grouping]

section
variable {n : Nat}

theorem identifier_exact : Exact n identifier Grammar.name fun _ => true := by
  intro s a t _ reads _
  obtain ⟨_, kind, rfl, rfl⟩ := Reads.name_iff.mp reads
  exact identifier_eq_ok.mpr ⟨kind, rfl, rfl⟩

private theorem identifierList_exact :
    Exact n identifierList (.parens (Form.commas Grammar.name)) fun _ => true := by
  intro s a t less reads _
  obtain ⟨_, kind, m, inside, closes, rfl⟩ := Reads.parens_iff.mp reads
  have fewer := s.advance_within.remaining_le
  have names := (identifier_exact (n := n)).separated ⟨rfl, by simp⟩ rfl s.advance a m (by omega)
    inside (by rw [closes]; rfl)
  exact bind_eq_ok.mpr ⟨(), _, expect_of_kind kind, bind_eq_ok.mpr ⟨a, m, names,
    bind_eq_ok.mpr ⟨true, _, eat_of_kind closes, rfl⟩⟩⟩

theorem optionalColumns_exact : Exact n optionalColumns Grammar.columns fun k => k != .leftParen := by
  intro s a t less reads halts
  refine bind_eq_ok.mpr ⟨s.kind, s, rfl, ?_⟩
  rcases Reads.or_iff.mp reads with names | none
  · obtain ⟨_, kind, _⟩ := Reads.parens_iff.mp names
    rw [if_pos kind]
    exact identifierList_exact s a t less names rfl
  · obtain ⟨_, rfl, rfl⟩ := Reads.pure_iff.mp none
    rw [if_neg (by simpa using halts)]
    rfl

theorem requiredAlias_exact : Exact n requiredAlias Grammar.nameAfterAs fun _ => true := by
  intro s a t less reads halts
  rcases Reads.or_iff.mp reads with after | name
  · obtain ⟨_, m, word, name⟩ := Reads.seqRight_iff.mp after
    obtain ⟨_, kind, rfl⟩ := Reads.word_iff.mp word
    have fewer := s.advance_within.remaining_le
    exact bind_eq_ok.mpr ⟨true, _, eat_of_kind kind, identifier_exact (n := n) _ a t (by omega) name rfl⟩
  · obtain ⟨_, kind, rfl, rfl⟩ := Reads.name_iff.mp name
    exact bind_eq_ok.mpr ⟨false, s, eat_of_ne (by simp [kind]), bind_eq_ok.mpr
      ⟨some s.token.value, _, identifier?_eq_ok.mpr (Or.inl ⟨rfl, kind, rfl⟩), rfl⟩⟩

theorem nameAfterAs_starts {allows : Grammar.Allows} {s t : State} {a : String}
    (reads : Reads allows s Grammar.nameAfterAs a t) :
    s.kind = .keyword .AS ∨ s.kind = .identifier := by
  rcases Reads.or_iff.mp reads with after | name
  · obtain ⟨_, m, word, _⟩ := Reads.seqRight_iff.mp after
    exact Or.inl (Reads.word_iff.mp word).2.1
  · exact Or.inr (Reads.name_iff.mp name).2.1

theorem optionalAlias_exact : Exact n optionalAlias (Form.optional Grammar.nameAfterAs)
    fun k => k != .keyword .AS && k != .identifier := by
  intro s o t less reads halts
  rcases Reads.optional_iff.mp reads with ⟨a, rfl, present⟩ | ⟨rfl, _, rfl⟩
  · rcases Reads.or_iff.mp present with after | name
    · obtain ⟨_, m, word, name⟩ := Reads.seqRight_iff.mp after
      obtain ⟨_, kind, rfl⟩ := Reads.word_iff.mp word
      have fewer := s.advance_within.remaining_le
      exact bind_eq_ok.mpr ⟨true, _, eat_of_kind kind,
        map_of_ok (identifier_exact (n := n) _ a t (by omega) name rfl)⟩
    · obtain ⟨_, kind, rfl, rfl⟩ := Reads.name_iff.mp name
      exact bind_eq_ok.mpr ⟨false, s, eat_of_ne (by simp [kind]),
        identifier?_eq_ok.mpr (Or.inl ⟨rfl, kind, rfl⟩)⟩
  · simp only [Bool.and_eq_true, bne_iff_ne] at halts
    exact bind_eq_ok.mpr ⟨false, t, eat_of_ne halts.1,
      identifier?_eq_ok.mpr (Or.inr ⟨rfl, halts.2, rfl⟩)⟩

/-- Names with points after them and a star are read to the star. -/
theorem columnPathWithin_star (k : Nat) {s t : State} {names : List String}
    (enough : s.remaining < k) (reads : Reads firstReading s
      (Form.many (Grammar.name <* Form.mark .dot) <* Form.mark .star) names t) :
    columnPathWithin k s = .ok (names, true) t := by
  obtain ⟨_, m, points, star⟩ := Reads.seqLeft_iff.mp reads
  obtain ⟨_, ends, rfl⟩ := (Reads.mark_iff ⟨rfl, by simp⟩).mp star
  clear reads
  induction names generalizing s k with
  | nil =>
      obtain ⟨k, rfl⟩ : ∃ j, k = j + 1 := ⟨k - 1, by omega⟩
      obtain ⟨_, rfl⟩ := Reads.many_nil_iff.mp points
      exact bind_eq_ok.mpr ⟨true, _, eat_of_kind ends, rfl⟩
  | cons name names ih =>
      obtain ⟨k, rfl⟩ : ∃ j, k = j + 1 := ⟨k - 1, by omega⟩
      obtain ⟨u, first, others⟩ := Reads.many_cons_iff.mp points
      obtain ⟨_, v, first, point⟩ := Reads.seqLeft_iff.mp first
      obtain ⟨complete, kind, rfl, rfl⟩ := Reads.name_iff.mp first
      obtain ⟨_, dot, rfl⟩ := (Reads.mark_iff ⟨rfl, by simp⟩).mp point
      have fewer := complete.remaining_advance (by rw [kind]; rfl)
      have fewer' := s.advance.advance_within.remaining_le
      exact bind_eq_ok.mpr ⟨false, s, eat_of_ne (by simp [kind]), bind_eq_ok.mpr
        ⟨some s.token.value, _, identifier?_eq_ok.mpr (Or.inl ⟨rfl, kind, rfl⟩), bind_eq_ok.mpr
        ⟨true, _, eat_of_kind dot, bind_eq_ok.mpr ⟨(names, true), _,
          ih k (by omega) others, rfl⟩⟩⟩⟩

/-- Names with points between them are read as far as there are points. -/
theorem columnPathWithin_path (k : Nat) {s t : State} {names : List String}
    (enough : s.remaining < k) (reads : Reads firstReading s Grammar.path names t)
    (halts : t.kind ≠ .dot) : columnPathWithin k s = .ok (names, false) t := by
  induction names generalizing s k with
  | nil =>
      obtain ⟨_, _, _, same, _⟩ := Reads.separated_iff.mp reads
      cases same
  | cons name names ih =>
      obtain ⟨k, rfl⟩ : ∃ j, k = j + 1 := ⟨k - 1, by omega⟩
      obtain ⟨_, _, m, same, first, others⟩ := Reads.separated_iff.mp reads
      cases same
      obtain ⟨complete, kind, rfl, rfl⟩ := Reads.name_iff.mp first
      have fewer := complete.remaining_advance (by rw [kind]; rfl)
      refine bind_eq_ok.mpr ⟨false, s, eat_of_ne (by simp [kind]), bind_eq_ok.mpr
        ⟨some s.token.value, _, identifier?_eq_ok.mpr (Or.inl ⟨rfl, kind, rfl⟩), ?_⟩⟩
      cases names with
      | nil =>
          obtain ⟨_, rfl⟩ := Reads.many_nil_iff.mp others
          exact bind_eq_ok.mpr ⟨false, _, eat_of_ne halts, rfl⟩
      | cons second names =>
          obtain ⟨u, next, rest⟩ := Reads.many_cons_iff.mp others
          obtain ⟨dot, _, next⟩ := Reads.mark_strict ⟨rfl, by simp⟩ next
          have fewer' := s.advance.advance_within.remaining_le
          have path : Reads firstReading s.advance.advance Grammar.path (second :: names) t :=
            Reads.separated_iff.mpr ⟨second, names, u, rfl, next, rest⟩
          exact bind_eq_ok.mpr ⟨true, _, eat_of_kind dot, bind_eq_ok.mpr ⟨(second :: names, false), t,
            ih k (by omega) path, rfl⟩⟩

end

end SelectSyntax.Parse
