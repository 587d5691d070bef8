import SelectSyntax.Proofs.Completeness
import SelectSyntax.Proofs.Spelling

/-!
Phrases between parentheses that have two readings: a word that is a list of conditions as well as a query
is a query body in parentheses, and the grammar with first readings preferred gives a word one tree.
-/

set_option autoImplicit false
set_option relaxedAutoImplicit false

namespace SelectSyntax

open Token (Kind Keyword)
open SyntaxTree

namespace Parse

open Grammar (anyReading firstReading)

section
variable {allows : Grammar.Allows} {s t : State}

/-- The kinds that a list of conditions goes on with after a primary. -/
def goesOnCondition (k : Kind) : Bool :=
  (power? k).isSome || (BinaryOp.product? k).isSome || (BinaryOp.sum? k).isSome ||
    (BinaryOp.comparison? k).isSome || (and? k).isSome || (or? k).isSome || k == .comma ||
    [Keyword.IS, .NOT, .BETWEEN, .IN, .LIKE].any fun j => k == .keyword j

theorem goesOnBody_disjoint {k : Kind} (body : goesOnBody k) : goesOnCondition k = false := by
  unfold goesOnBody at body
  cases k with
  | keyword j => cases j <;> first | rfl | simp [unionOrExcept?, intersect?] at body
  | rightParen => rfl
  | _ => simp [unionOrExcept?, intersect?] at body

/-- A form whose phrases in a state are a phrase in parentheses, with its value, or go on after one as
conditions do. -/
def Opens (allows : Grammar.Allows) (s : State) (F : Form Expr) : Prop :=
  ∀ e t, Reads allows s F e t →
    ∃ a m, Reads allows s Grammar.parenthesis a m ∧ (m = t ∧ e = a ∨ goesOnCondition m.kind = true)

private theorem Opens.then {F : Form Expr} (h : Opens allows s F) {a e : Expr} {m : State}
    (first : Reads allows s F a m) (next : m = t ∧ e = a ∨ goesOnCondition m.kind = true) :
    ∃ a m, Reads allows s Grammar.parenthesis a m ∧ (m = t ∧ e = a ∨ goesOnCondition m.kind = true) := by
  obtain ⟨b, u, inside, rest⟩ := h a m first
  refine ⟨b, u, inside, ?_⟩
  rcases rest with ⟨rfl, rfl⟩ | goes
  · exact next
  · exact Or.inr goes

private theorem Opens.chain {operator : Kind → Option BinaryOp} {F : Form Expr} (h : Opens allows s F)
    (single : ∀ k op, operator k = some op → Reads.Single k)
    (goes : ∀ k op, operator k = some op → goesOnCondition k = true) :
    Opens allows s (Form.chain operator F) := by
  intro e t reads
  obtain ⟨_, rest, m, head, others, same⟩ := Reads.seq_iff.mp reads
  obtain ⟨first, operand, rfl⟩ := Reads.map_iff.mp head
  refine h.then operand ?_
  cases rest with
  | nil =>
      obtain ⟨_, rfl⟩ := Reads.many_nil_iff.mp others
      exact Or.inl ⟨rfl, same⟩
  | cons a rest =>
      obtain ⟨_, tail, _⟩ := Reads.many_cons_iff.mp others
      obtain ⟨_, _, _, sign, _⟩ := Reads.seq_iff.mp tail
      obtain ⟨op, sign, _⟩ := Reads.map_iff.mp sign
      exact Or.inr (goes _ op ((Reads.oneOf_iff single).mp sign).2.1)

private theorem primary_opens_parenthesis (opens : s.kind = .leftParen) :
    Opens allows s Grammar.primary := by
  intro e t reads
  rcases primary_opens reads with plain | inside
  · exact absurd opens plain.2
  · exact ⟨e, t, inside, Or.inl ⟨rfl, rfl⟩⟩

private theorem row_opens (opens : s.kind = .leftParen) : Opens allows s Form.row := by
  have sum : Opens allows s Grammar.sum := by
    rw [Grammar.sum_eq, Grammar.product_eq, Grammar.power_eq]
    exact (((primary_opens_parenthesis opens).chain power?_operators.single fun k op found => by
      simp [goesOnCondition, found]).chain product?_operators.single fun k op found => by
      simp [goesOnCondition, found]).chain sum?_operators.single fun k op found => by
      simp [goesOnCondition, found]
  intro e t reads
  exact sum e t (Reads.row_iff.mp reads)

private theorem flag_goes {k : Keyword} {b : Bool} {m u : State} {x : Unit}
    (word : goesOnCondition (.keyword k) = true)
    (flag : Reads allows s (Form.flag .NOT) b m) (next : Reads allows m (Form.word k) x u) :
    goesOnCondition s.kind = true := by
  rcases (Reads.flag_iff.mp flag).2 with ⟨_, kind, _⟩ | ⟨_, rfl⟩
  · rw [kind]
    rfl
  · rw [(Reads.word_iff.mp next).2.1]
    exact word

private theorem predicate_opens (opens : s.kind = .leftParen) : Opens allows s Grammar.predicate := by
  intro e t reads
  rcases Reads.or_iff.mp reads with query | reads
  · obtain ⟨_, query, _⟩ := Reads.map_iff.mp query
    obtain ⟨_, _, word, _⟩ := Reads.seqRight_iff.mp query
    have kind := (Reads.word_iff.mp word).2.1
    rw [opens] at kind
    cases kind
  · obtain ⟨f, g, m, head, last, same⟩ := Reads.seq_iff.mp reads
    obtain ⟨operand, row, rfl⟩ := Reads.map_iff.mp head
    refine (row_opens opens).then row ?_
    have compared : ∀ u op, Reads allows m Grammar.comparison op u → goesOnCondition m.kind = true := by
      intro u op sign
      simp [goesOnCondition, (Reads.comparison_iff.mp sign).2.1]
    simp only [Reads.or_iff] at last
    rcases last with last | last | last | last | last | last
    · rcases Reads.or_iff.mp last with last | last
      · obtain ⟨_, _, _, last, _⟩ := Reads.seq_iff.mp last
        obtain ⟨op, sign, _⟩ := Reads.map_iff.mp last
        exact Or.inr (compared _ op sign)
      · obtain ⟨_, _, _, last, _⟩ := Reads.seq_iff.mp last
        obtain ⟨_, _, _, last, _⟩ := Reads.seq_iff.mp last
        obtain ⟨op, sign, _⟩ := Reads.map_iff.mp last
        exact Or.inr (compared _ op sign)
    · obtain ⟨_, _, words, _⟩ := Reads.seqLeft_iff.mp last
      obtain ⟨_, words, _⟩ := Reads.map_iff.mp words
      obtain ⟨_, _, word, _⟩ := Reads.seqRight_iff.mp words
      exact Or.inr (by rw [(Reads.word_iff.mp word).2.1]; rfl)
    · obtain ⟨_, _, _, last, _⟩ := Reads.seq_iff.mp last
      obtain ⟨_, _, _, last, words, _⟩ := Reads.seq_iff.mp last
      obtain ⟨_, flag, _⟩ := Reads.map_iff.mp last
      obtain ⟨_, _, word, _⟩ := Reads.seqRight_iff.mp words
      exact Or.inr (flag_goes rfl flag word)
    · obtain ⟨_, _, _, last, words, _⟩ := Reads.seq_iff.mp last
      obtain ⟨_, flag, _⟩ := Reads.map_iff.mp last
      obtain ⟨_, _, word, _⟩ := Reads.seqRight_iff.mp words
      exact Or.inr (flag_goes rfl flag word)
    · obtain ⟨_, _, _, last, _⟩ := Reads.seq_iff.mp last
      obtain ⟨_, _, _, last, words, _⟩ := Reads.seq_iff.mp last
      obtain ⟨_, flag, _⟩ := Reads.map_iff.mp last
      obtain ⟨_, _, word, _⟩ := Reads.seqRight_iff.mp words
      exact Or.inr (flag_goes rfl flag word)
    · obtain ⟨_, rfl, rfl⟩ := Reads.pure_iff.mp last
      exact Or.inl ⟨rfl, same⟩

private theorem negation_opens (opens : s.kind = .leftParen) : Opens allows s Grammar.negation := by
  intro e t reads
  rcases Reads.or_iff.mp reads with not | test
  · obtain ⟨_, not, _⟩ := Reads.map_iff.mp not
    obtain ⟨_, _, word, _⟩ := Reads.seqRight_iff.mp not
    have kind := (Reads.word_iff.mp word).2.1
    rw [opens] at kind
    cases kind
  · obtain ⟨f, g, m, head, last, same⟩ := Reads.seq_iff.mp test
    obtain ⟨operand, predicate, rfl⟩ := Reads.map_iff.mp head
    refine (predicate_opens opens).then predicate ?_
    rcases Reads.or_iff.mp last with last | last
    · obtain ⟨_, _, _, words, _⟩ := Reads.seq_iff.mp last
      obtain ⟨_, words, _⟩ := Reads.map_iff.mp words
      obtain ⟨_, _, word, _⟩ := Reads.seqRight_iff.mp words
      exact Or.inr (by rw [(Reads.word_iff.mp word).2.1]; rfl)
    · obtain ⟨_, rfl, rfl⟩ := Reads.pure_iff.mp last
      exact Or.inl ⟨rfl, same⟩

private theorem condition_opens (opens : s.kind = .leftParen) :
    Opens allows s (Form.construct .condition) := by
  have condition : Opens allows s Grammar.condition := by
    rw [Grammar.condition_eq, Grammar.conjunction_eq]
    exact ((negation_opens opens).chain and?_operators.single fun k op found => by
      simp [goesOnCondition, found]).chain or?_operators.single fun k op found => by
      simp [goesOnCondition, found]
  intro e t reads
  exact condition e t (Reads.construct_iff.mp reads)

/-- A list of conditions that starts with a parenthesis goes on after what is in it, or is one condition. -/
theorem conditions_opens {es : List Expr} (reads : Reads allows s Grammar.conditions es t)
    (opens : s.kind = .leftParen) :
    ∃ a m, Reads allows s Grammar.parenthesis a m ∧ (m = t ∧ es = [a] ∨ goesOnCondition m.kind = true) := by
  obtain ⟨e, rest, m, rfl, first, others⟩ := Reads.separated_iff.mp reads
  obtain ⟨a, u, inside, next⟩ := condition_opens opens e m first
  refine ⟨a, u, inside, ?_⟩
  rcases next with ⟨rfl, rfl⟩ | goes
  · cases rest with
    | nil =>
        obtain ⟨_, rfl⟩ := Reads.many_nil_iff.mp others
        exact Or.inl ⟨rfl, rfl⟩
    | cons b rest =>
        obtain ⟨_, tail, _⟩ := Reads.many_cons_iff.mp others
        obtain ⟨_, _, comma, _⟩ := Reads.seqRight_iff.mp tail
        exact Or.inr (by rw [((Reads.mark_iff ⟨rfl, by simp⟩).mp comma).2.1]; rfl)
  · exact Or.inr goes

theorem Reads.query_of_body {b : Body} (reads : Reads allows s (Form.construct .body) b t) :
    Reads allows s (Form.construct .query) ⟨none, b, []⟩ t := by
  refine Reads.construct_iff.mpr (Reads.seq_iff.mpr ⟨_, [], t, Reads.seq_iff.mpr ⟨_, b, s,
    Reads.map_iff.mpr ⟨none, Reads.optional_iff.mpr (Or.inr ⟨rfl, reads.1, rfl⟩), rfl⟩,
    Reads.construct_iff.mp reads, rfl⟩, ?_, rfl⟩)
  exact Reads.or_iff.mpr (Or.inr (Reads.pure_iff.mpr ⟨reads.complete, rfl, rfl⟩))

end

/-- A list of conditions that is a query as well is a subquery, and what is in its parentheses is a query
body as well as the query of it. -/
theorem conditions_query {s t : State} {es : List Expr} {q : Statement}
    (reads : Reads firstReading s Grammar.conditions es t)
    (query : Reads anyReading s (Form.construct .query) q t) (closes : t.kind = .rightParen) :
    ∃ m q b, es = [.subquery q] ∧ Reads firstReading s.advance (Form.construct .query) q m ∧
      Reads anyReading s.advance (Form.construct .body) b m ∧ m.kind = .rightParen := by
  obtain ⟨e, _, _, _, first, _⟩ := Reads.separated_iff.mp reads
  have other : s.kind ≠ .keyword .WITH := by
    intro clause
    have start := condition_starts first
    simp [clause, conditionStart, rowStart] at start
  obtain ⟨u, body, halts⟩ := query_body query closes other
  have opens : s.kind = .leftParen := by
    rcases body_starts body with select | opens
    · have start := condition_starts first
      simp [select, conditionStart, rowStart] at start
    · exact opens
  obtain ⟨b, m, inside, closing, goes⟩ := body_opens body opens halts
  obtain ⟨a, v, phrase, next⟩ := conditions_opens reads opens
  obtain ⟨_, _, m', closing', rfl, reading⟩ := Reads.prefer_iff.mp phrase
  have same : m' = m := by
    rcases reading with ⟨_, reading, _⟩ | ⟨_, _, reading, _⟩
    · exact reading.closing_unique inside closing' closing
    · exact reading.closing_unique inside closing' closing
  subst same
  rcases next with ⟨_, rfl⟩ | next
  · rcases reading with ⟨q, reading, rfl⟩ | ⟨_, permits, reading, _⟩
    · exact ⟨m', q, b, rfl, reading, inside, closing⟩
    · obtain ⟨complete, w, spells, _⟩ := reading
      exact absurd ⟨_, inside.query_of_body⟩ ((permits_first_iff complete ⟨w, spells⟩).mp permits)
  · rw [goesOnBody_disjoint goes] at next
    cases next

/-- With first readings preferred, what a construct is read as up to a place depends on the tokens only. -/
theorem construct_unique {s t : State} {e : Entry} {a b : e.Result}
    (h : Reads firstReading s (Form.construct e) a t) (h' : Reads firstReading s (Form.construct e) b t)
    (ends : e.ends t.kind = true) : a = b := by
  have run := levelled_exact 0 (s.remaining + 1) e s a t (Nat.lt_succ_self _) h ends
  have run' := levelled_exact 0 (s.remaining + 1) e s b t (Nat.lt_succ_self _) h' ends
  rw [run] at run'
  cases run'
  rfl

end Parse

def Symbol.token (s : Symbol) : Token :=
  ⟨s.kind, match s.kind with
    | .string => Text.Doubled.quote '\'' s.text
    | .identifier => Text.Doubled.quote '"' s.text
    | _ => s.text, Text.Place.start, 0⟩

theorem Symbol.token_symbol {s : Symbol} (live : s.kind.isTerminal = false) : s.token.symbol = s := by
  obtain ⟨kind, text⟩ := s
  cases kind with
  | string => exact Symbol.ofText_string text
  | identifier => exact Symbol.ofText_quotedName text
  | fault => cases live
  | _ => rfl

namespace Parse

/-- A word may stand between two states, with a closing parenthesis after it. -/
theorem exists_spells (n : Nat) {w : Word} (live : ∀ s ∈ w, s.kind.isTerminal = false) :
    ∃ s t : State, s.Complete ∧ s.parameters = n ∧ s.Spells w t ∧ t.kind = .rightParen := by
  let at_ (s : Symbol) : Snapshot := ⟨Text.Place.start, s.token⟩
  have ends : ∀ w : Word, (∀ s ∈ w, s.kind.isTerminal = false) →
      Cursor.Ends (w.map at_ ++ [at_ ⟨.rightParen, ""⟩, at_ ⟨.eof, ""⟩]) := by
    intro w live
    induction w with
    | nil => exact ⟨rfl, rfl⟩
    | cons s w ih =>
        have rest := ih fun s mem => live s (List.mem_cons_of_mem _ mem)
        cases w with
        | nil => exact ⟨live s (List.mem_cons_self ..), rest⟩
        | cons t w => exact ⟨live s (List.mem_cons_self ..), rest⟩
  obtain ⟨current, ahead, run⟩ : ∃ current ahead,
      w.map at_ ++ [at_ ⟨.rightParen, ""⟩, at_ ⟨.eof, ""⟩] = current :: ahead := by
    cases w with
    | nil => exact ⟨_, _, rfl⟩
    | cons s w => exact ⟨_, _, rfl⟩
  refine ⟨⟨⟨current, ahead⟩, n, 0⟩, ⟨⟨at_ ⟨.rightParen, ""⟩, [at_ ⟨.eof, ""⟩]⟩, n + w.questions, 0⟩, ?_, rfl,
    ⟨w.map at_, run.symm, ?_, rfl, rfl⟩, rfl⟩
  · show Cursor.Ends (current :: ahead)
    rw [← run]
    exact ends w live
  · rw [List.map_map]
    refine (List.map_congr_left fun s mem => ?_).trans (List.map_id w)
    exact Symbol.token_symbol (live s mem)

end Parse

namespace Grammar.Derives

open Parse (Reads exists_spells)

variable {n : Nat} {w : Word}

theorem construct_unique {e : Parse.Entry} {a b : e.Result}
    (h : Derives firstReading (Form.construct e) n w a)
    (h' : Derives firstReading (Form.construct e) n w b) : a = b := by
  obtain ⟨s, t, complete, rfl, spells, closes⟩ := exists_spells n h.live
  refine Parse.construct_unique ⟨complete, w, spells, h⟩ ⟨complete, w, spells, h'⟩ ?_
  rw [closes]
  cases e <;> rfl

theorem query_of_body {allows : Allows} {b : Body} (h : Derives allows (Form.construct .body) n w b) :
    Derives allows (Form.construct .query) n w ⟨Option.none, b, []⟩ := by
  obtain ⟨s, t, complete, rfl, spells, _⟩ := exists_spells n h.live
  have reads : Reads allows s (Form.construct .body) b t := ⟨complete, w, spells, h⟩
  obtain ⟨_, v, spells', query⟩ := reads.query_of_body
  rwa [spells.word_unique spells']

theorem body_of_query {allows : Allows} {b : Body}
    (h : Derives allows (Form.construct .query) n w ⟨Option.none, b, []⟩) :
    Derives allows (Form.construct .body) n w b := by
  obtain ⟨u, v, f, keys, rfl, front, order, same⟩ := seq_iff.mp (construct_iff.mp h)
  obtain ⟨x, y, g, b', rfl, clause, body, rfl⟩ := seq_iff.mp front
  obtain ⟨o, missing, rfl⟩ := map_iff.mp clause
  cases same
  obtain rfl := optional_none_iff.mp missing
  rcases or_iff.mp order with order | order
  · obtain ⟨_, _, _, _, _, keys⟩ := seqRight_iff.mp order
    obtain ⟨_, _, _, _, impossible, _⟩ := separated_iff.mp keys
    cases impossible
  · obtain ⟨rfl, _⟩ := pure_iff.mp order
    rw [List.nil_append, List.append_nil]
    exact construct_iff.mpr body

theorem subquery_parenthesis {allows : Allows} {q : Statement}
    (h : Derives allows conditions n w [.subquery q]) :
    Derives allows Grammar.parenthesis n w (.subquery q) := by
  obtain ⟨u, v, e, rest, same, rfl, first, others⟩ := separated_iff.mp h
  cases same
  obtain rfl := many_nil_iff.mp others
  rw [List.append_nil]
  have negation := chain_leaf (chain_leaf (construct_iff.mp first) (by simp)) (by simp)
  rcases or_iff.mp negation with not | test
  · obtain ⟨_, _, impossible⟩ := map_iff.mp not
    cases impossible
  obtain ⟨x, y, f, g, rfl, head, last, same⟩ := seq_iff.mp test
  obtain ⟨operand, predicate, rfl⟩ := map_iff.mp head
  rcases or_iff.mp last with last | last
  · simp only [seq_iff, map_iff] at last
    obtain ⟨_, _, _, _, _, ⟨_, _, rfl⟩, _, rfl⟩ := last
    cases same
  obtain ⟨rfl, rfl⟩ := pure_iff.mp last
  cases same
  rw [List.append_nil]
  rcases or_iff.mp predicate with query | row
  · obtain ⟨_, _, impossible⟩ := map_iff.mp query
    cases impossible
  obtain ⟨x, y, f, g, rfl, head, last, same⟩ := seq_iff.mp row
  obtain ⟨operand, row, rfl⟩ := map_iff.mp head
  have plain : y = [] ∧ operand = .subquery q := by
    simp only [comparisonEnd, nullEnd, betweenEnd, inEnd, likeEnd, or_iff, seq_iff, map_iff, seqLeft_iff,
      pure_iff] at last
    rcases last with (⟨_, _, _, _, _, ⟨_, _, rfl⟩, _, rfl⟩ |
      ⟨_, _, _, _, _, ⟨_, _, _, _, _, ⟨_, _, rfl⟩, _, rfl⟩, _, rfl⟩) | ⟨_, _, _, _, ⟨_, _, rfl⟩, _⟩ |
      ⟨_, _, _, _, _, ⟨_, _, _, _, _, ⟨_, _, rfl⟩, _, rfl⟩, _, rfl⟩ |
      ⟨_, _, _, x, _, ⟨_, _, rfl⟩, _, rfl⟩ |
      ⟨_, _, _, _, _, ⟨_, _, _, _, _, ⟨_, _, rfl⟩, _, rfl⟩, _, rfl⟩ | ⟨rfl, rfl⟩
    case inr.inr.inr.inl =>
      cases x <;> cases same
    case inr.inr.inr.inr.inr => exact ⟨rfl, same.symm⟩
    all_goals cases same
  obtain ⟨rfl, rfl⟩ := plain
  rw [List.append_nil]
  have reads := chain_leaf (chain_leaf (chain_leaf (row_iff.mp row) (by simp)) (by simp)) (by simp)
  simp only [primary, literal, signed, case, column, call, or_iff, seq_iff, map_iff, seqLeft_iff,
    parameter_iff] at reads
  rcases reads with (⟨_, _, impossible⟩ | ⟨_, _, impossible⟩ | ⟨_, _, impossible⟩ | ⟨_, _, impossible⟩ |
    ⟨_, _, impossible⟩) | ⟨_, _, impossible⟩ | (⟨_, _, impossible⟩ | ⟨_, _, impossible⟩) |
    ⟨_, _, _, _, ⟨_, _, _, _, _, ⟨_, _, _, _, _, ⟨_, _, _, _, _, ⟨_, _, rfl⟩, _, rfl⟩, _, rfl⟩, _, impossible⟩, _⟩ |
    (⟨_, _, _, _, ⟨_, _, impossible⟩, _⟩ | ⟨_, _, impossible⟩) |
    ⟨_, _, _, _, _, ⟨_, _, rfl⟩, _, impossible⟩ | inside
  case inr.inr.inr.inr.inr.inr => exact inside
  all_goals cases impossible

/-- A list of conditions is a query as well exactly if it is a single query body in parentheses. -/
theorem conditions_query_iff {es : List Expr} (h : Derives firstReading conditions n w es) :
    (∃ q, Derives anyReading (Form.construct .query) n w q) ↔
      ∃ b, es = [.subquery ⟨Option.none, b, []⟩] := by
  constructor
  · rintro ⟨q, query⟩
    obtain ⟨s, t, complete, rfl, spells, closes⟩ := exists_spells n h.live
    obtain ⟨m, q, b, rfl, ⟨_, v, inside, query⟩, ⟨_, v', inside', body⟩, _⟩ :=
      Parse.conditions_query ⟨complete, w, spells, h⟩ ⟨complete, w, spells, query⟩ closes
    obtain rfl := inside.word_unique inside'
    obtain ⟨b, body⟩ := body.exists_first
    exact ⟨b, by rw [query.construct_unique body.query_of_body]⟩
  · rintro ⟨b, rfl⟩
    induction length : w.length using Nat.strongRecOn generalizing n w with
    | _ k shorter =>
      obtain ⟨opening, closing, v, rfl, inside⟩ := prefer_iff.mp h.subquery_parenthesis
      have body : ∃ b, Derives anyReading (Form.construct .body) n v b := by
        rcases inside with ⟨q, query, same⟩ | ⟨es, allowed, others, same⟩
        · cases same
          exact ⟨b, (body_of_query query).any⟩
        · match es, others, same with
          | [_], others, same =>
              cases same
              refine absurd (shorter v.length ?_ others rfl) allowed
              rw [← length, List.length_cons, List.length_append]
              omega
      obtain ⟨b, body⟩ := body
      have inside : Derives anyReading bodyPrimary n _ b :=
        or_iff.mpr (Or.inr (parens_iff.mpr ⟨opening, closing, v, rfl, body⟩))
      have whole : Derives anyReading Grammar.body n _ b :=
        fold_single (show Derives anyReading term n _ b from fold_single inside)
      exact ⟨_, query_of_body (construct_iff.mpr whole)⟩

end Grammar.Derives

end SelectSyntax
