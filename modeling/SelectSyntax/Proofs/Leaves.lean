import SelectSyntax.Proofs.Phrases
import SelectSyntax.Proofs.NodeDepth
import SelectSyntax.Proofs.Completeness

/-!
The leaves of a tree in the order of the source, and the leaves that stand in a run of tokens. Whatever
attempts are made on the way, a tree that is read holds the leaves of the tokens that were taken: each of
them once and in order, with the parameters numbered from one.
-/

set_option autoImplicit false
set_option relaxedAutoImplicit false

namespace SelectSyntax

open Token (Kind Keyword)
open SyntaxTree

/-- What a tree holds of the text of a source: a name of any kind, a literal, or a parameter. -/
inductive Leaf where
  | name (text : String)
  | number (text : String)
  | string (value : String)
  | bool (value : Bool)
  | null
  | parameter (position : Nat)
  deriving DecidableEq, Repr

namespace SyntaxTree

mutual

/-- The leaves of an expression in the order of the source. -/
def Expr.leaves : Expr → List Leaf
  | .binary _ left right => left.leaves ++ right.leaves
  | .unary _ operand => operand.leaves
  | .is _ _ operand => operand.leaves
  | .quantified _ _ left query => left.leaves ++ query.leaves
  | .between _ operand low high => operand.leaves ++ low.leaves ++ high.leaves
  | .inQuery _ operand query => operand.leaves ++ query.leaves
  | .inValues _ operand values => operand.leaves ++ Expr.leavesList values
  | .like _ operand pattern escape => operand.leaves ++ pattern.leaves ++ Expr.leavesOption escape
  | .existsQuery query => query.leaves
  | .bool value => [.bool value]
  | .null => [.null]
  | .number text => [.number text]
  | .string value => [.string value]
  | .parameter position => [.parameter position]
  | .column path _ => path.map .name
  | .call name arguments => name.map .name ++ Expr.leavesList arguments
  | .list items => Expr.leavesList items
  | .subquery query => query.leaves
  | .case operand branches otherwise =>
      Expr.leavesOption operand ++ Expr.leavesBranches branches ++ Expr.leavesOption otherwise

def Expr.leavesList : List Expr → List Leaf
  | [] => []
  | e :: rest => e.leaves ++ Expr.leavesList rest

def Expr.leavesOption : Option Expr → List Leaf
  | none => []
  | some e => e.leaves

def Expr.leavesBranches : List (Expr × Expr) → List Leaf
  | [] => []
  | (condition, result) :: rest => condition.leaves ++ result.leaves ++ Expr.leavesBranches rest

def Projection.leavesList : List Projection → List Leaf
  | [] => []
  | ⟨e, aliasName⟩ :: rest =>
      e.leaves ++ aliasName.toList.map .name ++ Projection.leavesList rest

def OrderItem.leavesList : List OrderItem → List Leaf
  | [] => []
  | ⟨e, _⟩ :: rest => e.leaves ++ OrderItem.leavesList rest

def Grouping.leavesOption : Option Grouping → List Leaf
  | none => []
  | some ⟨_, items⟩ => Expr.leavesList items

/-- The leaves of a table reference in the order of the source. -/
def TableRef.leaves : TableRef → List Leaf
  | .relation path aliasName => path.map .name ++ aliasName.toList.map .name
  | .derived query aliasName columns => query.leaves ++ .name aliasName :: columns.map .name
  | .join _ left right condition => left.leaves ++ right.leaves ++ Expr.leavesOption condition

def TableRef.leavesList : List TableRef → List Leaf
  | [] => []
  | t :: rest => t.leaves ++ TableRef.leavesList rest

/-- The leaves of a block in the order of the source. -/
def SelectBlock.leaves : SelectBlock → List Leaf
  | ⟨_, projections, tables, filter, grouping, having⟩ =>
      Projection.leavesList projections ++ TableRef.leavesList tables ++ Expr.leavesOption filter ++
        Grouping.leavesOption grouping ++ Expr.leavesOption having

/-- The leaves of a query body in the order of the source. -/
def Body.leaves : Body → List Leaf
  | .setOp _ _ left right => left.leaves ++ right.leaves
  | .block block => block.leaves

def NamedQuery.leavesList : List NamedQuery → List Leaf
  | [] => []
  | ⟨name, columns, query⟩ :: rest =>
      .name name :: columns.map .name ++ query.leaves ++ NamedQuery.leavesList rest

def WithClause.leavesOption : Option WithClause → List Leaf
  | none => []
  | some ⟨_, queries⟩ => NamedQuery.leavesList queries

/-- The leaves of a statement in the order of the source. -/
def Statement.leaves : Statement → List Leaf
  | ⟨withClause, body, orderBy⟩ =>
      WithClause.leavesOption withClause ++ body.leaves ++ OrderItem.leavesList orderBy

end

theorem Expr.leavesList_eq (es : List Expr) : Expr.leavesList es = es.flatMap Expr.leaves := by
  induction es with
  | nil => rfl
  | cons e es ih => simp [Expr.leavesList, ih]

theorem Expr.leavesBranches_eq (branches : List (Expr × Expr)) :
    Expr.leavesBranches branches = branches.flatMap fun b => b.1.leaves ++ b.2.leaves := by
  induction branches with
  | nil => rfl
  | cons b branches ih => simp [Expr.leavesBranches, ih]

def Projection.leaves (p : Projection) : List Leaf := p.expr.leaves ++ p.aliasName.toList.map .name

theorem Projection.leavesList_eq (ps : List Projection) :
    Projection.leavesList ps = ps.flatMap Projection.leaves := by
  induction ps with
  | nil => rfl
  | cons p ps ih =>
      cases p
      simp [Projection.leavesList, Projection.leaves, ih]

theorem OrderItem.leavesList_eq (items : List OrderItem) :
    OrderItem.leavesList items = items.flatMap fun k => k.expr.leaves := by
  induction items with
  | nil => rfl
  | cons k items ih =>
      cases k
      simp [OrderItem.leavesList, ih]

theorem TableRef.leavesList_eq (tables : List TableRef) :
    TableRef.leavesList tables = tables.flatMap TableRef.leaves := by
  induction tables with
  | nil => rfl
  | cons t tables ih => simp [TableRef.leavesList, ih]

def NamedQuery.leaves (q : NamedQuery) : List Leaf :=
  .name q.name :: q.columns.map .name ++ q.query.leaves

theorem NamedQuery.leavesList_eq (queries : List NamedQuery) :
    NamedQuery.leavesList queries = queries.flatMap NamedQuery.leaves := by
  induction queries with
  | nil => rfl
  | cons q queries ih =>
      cases q
      simp [NamedQuery.leavesList, NamedQuery.leaves, ih]

end SyntaxTree

/-- The leaf that a symbol stands for, after so many parameters. A truth value or `NULL` that `IS` tests for
is none. -/
def Symbol.leaf? (tested : Bool) (n : Nat) (s : Symbol) : Option Leaf :=
  match s.kind with
  | .identifier => some (.name s.text)
  | .number => some (.number s.text)
  | .string => some (.string s.text)
  | .question => some (.parameter (n + 1))
  | .keyword .TRUE => if tested then none else some (.bool true)
  | .keyword .FALSE => if tested then none else some (.bool false)
  | .keyword .NULL => if tested then none else some .null
  | .keyword k => if k.isFunctionName then some (.name s.text) else none
  | _ => none

/-- Whether a truth value right after a symbol is one that `IS` tests for: after `IS`, and after a `NOT` that
follows `IS`. -/
def Symbol.tests (tested : Bool) (s : Symbol) : Bool :=
  s.kind == .keyword .IS || tested && s.kind == .keyword .NOT

/-- The leaves in a word, after so many parameters, and after an `IS` or not. -/
def Word.leavesFrom (tested : Bool) (n : Nat) : Word → List Leaf
  | [] => []
  | s :: w =>
      (s.leaf? tested n).toList ++
        leavesFrom (s.tests tested) (n + if s.kind = .question then 1 else 0) w

def Word.leaves (w : Word) : List Leaf := w.leavesFrom false 0

def Leaf.position? : Leaf → Option Nat
  | .parameter position => some position
  | _ => none

theorem Symbol.leaf?_position? (tested : Bool) (n : Nat) (s : Symbol) :
    (s.leaf? tested n).toList.filterMap Leaf.position? = if s.kind = .question then [n + 1] else [] := by
  obtain ⟨kind, text⟩ := s
  cases kind with
  | keyword k => cases k <;> cases tested <;> rfl
  | _ => rfl

/-- The parameters in a word are numbered one after another. -/
theorem Word.leavesFrom_positions (tested : Bool) (n : Nat) (w : Word) :
    (w.leavesFrom tested n).filterMap Leaf.position? = List.range' (n + 1) w.questions := by
  induction w generalizing tested n with
  | nil => rfl
  | cons s w ih =>
      rw [leavesFrom, List.filterMap_append, Symbol.leaf?_position?, ih]
      by_cases question : s.kind = .question
      · simp [question, Word.questions, List.range'_succ]
      · simp [question, Word.questions]

def Parse.Entry.leaves : (e : Parse.Entry) → e.Result → List Leaf
  | .query => Statement.leaves
  | .body => Body.leaves
  | .condition | .negated | .signed => Expr.leaves
  | .table => TableRef.leaves

namespace Grammar

/-- The leaves in a word are the given ones, whatever follows it; `before` and `after` say whether an `IS`
stands right before the word and at its end. -/
def Carries (before : Bool) (n : Nat) (w : Word) (leaves : List Leaf) (after : Bool) : Prop :=
  ∀ rest, Word.leavesFrom before n (w ++ rest) = leaves ++ Word.leavesFrom after (n + w.questions) rest

namespace Carries

theorem nil (before : Bool) (n : Nat) : Carries before n [] [] before := fun _ => rfl

theorem append {before between after : Bool} {n : Nat} {u v : Word} {l r : List Leaf}
    (first : Carries before n u l between) (second : Carries between (n + u.questions) v r after) :
    Carries before n (u ++ v) (l ++ r) after := by
  intro rest
  rw [List.append_assoc, first, second, Word.questions_append, Nat.add_assoc, List.append_assoc]

theorem leaves_eq {before after : Bool} {n : Nat} {w : Word} {l : List Leaf}
    (h : Carries before n w l after) : w.leavesFrom before n = l := by
  have whole := h []
  rw [List.append_nil] at whole
  exact whole.trans (List.append_nil l)

theorem symbol (before : Bool) (n : Nat) (s : Symbol) :
    Carries before n [s] (s.leaf? before n).toList (s.tests before) := by
  intro rest
  simp [Word.leavesFrom, Word.questions, List.countP_cons]

end Carries

/-- The kinds of symbols that stand for no leaf and test for none. -/
def isSilent : Kind → Bool
  | .identifier | .number | .string | .question => false
  | .keyword k => !k.isFunctionName && k != .TRUE && k != .FALSE && k != .NULL && k != .IS
  | _ => true

theorem terms_silent {α : Type} {l : List (Kind × α)} (all : l.all (fun p => isSilent p.1) = true) (k : Kind) (a : α)
    (found : Form.terms l k = some a) : isSilent k = true :=
  Form.terms_all (p := fun k _ => isSilent k) all found

theorem Carries.silent {n : Nat} {s : Symbol} (h : isSilent s.kind = true) :
    Carries false n [s] [] false := by
  obtain ⟨kind, text⟩ := s
  have carries := Carries.symbol false n ⟨kind, text⟩
  cases kind with
  | keyword k => cases k <;> first | exact carries | cases h
  | _ => first | exact carries | cases h

theorem Carries.leaf {n : Nat} {s : Symbol} {l : Leaf} (h : s.leaf? false n = some l) :
    Carries false n [s] [l] false := by
  obtain ⟨kind, text⟩ := s
  have carries := Carries.symbol false n ⟨kind, text⟩
  rw [h] at carries
  cases kind with
  | keyword k => cases k <;> first | exact carries | cases h
  | _ => exact carries

/-- The trees of a nonterminal hold the leaves in its words. -/
def known : (X : Nonterminal) → Property X.Result
  | .construct e => fun n w a => Carries false n w (e.leaves a) false
  | .row => fun n w a => Carries false n w a.leaves false

/-- The values of a form are related to the leaves in its words. -/
def Bears (allows : Allows) {α : Type} (F : Form α) (related : α → List Leaf → Prop) : Prop :=
  Meets allows known F fun n w a => ∃ l, Carries false n w l false ∧ related a l

namespace Bears

variable {allows : Allows} {α β γ : Type} {P : β → List Leaf → Prop} {Q : α → List Leaf → Prop}

theorem weaken {F : Form α} {Q' : α → List Leaf → Prop} (h : Bears allows F Q)
    (weaker : ∀ a l, Q a l → Q' a l) : Bears allows F Q' :=
  Meets.weaken h fun _ _ a ⟨l, carries, holds⟩ => ⟨l, carries, weaker a l holds⟩

theorem map {f : β → α} {F : Form β} (h : Bears allows F fun b l => Q (f b) l) :
    Bears allows (f <$> F) Q :=
  Meets.map h

theorem pure {a : α} (h : Q a []) : Bears allows (pure a) Q :=
  Meets.pure fun n => ⟨[], .nil false n, h⟩

theorem or {F H : Form α} (first : Bears allows F Q) (second : Bears allows H Q) :
    Bears allows (F <|> H) Q :=
  Meets.or first second

theorem seq {F : Form (β → α)} {H : Form β} (second : Bears allows H P)
    (first : Bears allows F fun f l => ∀ b r, P b r → Q (f b) (l ++ r)) : Bears allows (F <*> H) Q := by
  refine Meets.seq second (Meets.weaken first ?_)
  rintro n u f ⟨l, front, holds⟩ v b ⟨r, back, holds'⟩
  exact ⟨l ++ r, front.append back, holds b r holds'⟩

theorem seqLeft {F : Form α} {H : Form β} (second : Bears allows H P)
    (first : Bears allows F fun a l => ∀ b r, P b r → Q a (l ++ r)) : Bears allows (F <* H) Q :=
  show Bears allows (Function.const β <$> F <*> H) Q from .seq second (.map first)

theorem seqRight {F : Form β} {H : Form α} {R : α → List Leaf → Prop} (second : Bears allows H R)
    (first : Bears allows F fun _ l => ∀ a r, R a r → Q a (l ++ r)) : Bears allows (F *> H) Q :=
  show Bears allows (Function.const β id <$> F <*> H) Q from .seq second (.map first)

theorem mark {k : Kind} {Q : Unit → List Leaf → Prop} (silent : isSilent k = true) (h : Q () []) :
    Bears allows (Form.mark k) Q :=
  Meets.mark fun _ _ => ⟨[], .silent silent, h⟩

theorem after {k : Kind} {F : Form α} (silent : isSilent k = true) (h : Bears allows F Q) :
    Bears allows (Form.mark k *> F) Q :=
  .seqRight h (.mark silent fun _ _ holds => holds)

theorem after₂ {k k' : Kind} {F : Form α} (silent : isSilent k = true) (silent' : isSilent k' = true)
    (h : Bears allows F Q) : Bears allows (Form.mark k *> Form.mark k' *> F) Q :=
  .seqRight h (.after silent (.mark silent' fun _ _ holds => holds))

theorem before {k : Kind} {F : Form α} (silent : isSilent k = true) (h : Bears allows F Q) :
    Bears allows (F <* Form.mark k) Q :=
  .seqLeft (P := fun _ r => r = []) (.mark silent rfl) (h.weaken fun a l holds _ r none_ => by
    rwa [none_, List.append_nil])

theorem construct {e : Parse.Entry} {Q : e.Result → List Leaf → Prop} (h : ∀ a, Q a (e.leaves a)) :
    Bears allows (Form.construct e) Q :=
  Meets.construct fun _ _ a carries => ⟨e.leaves a, carries, h a⟩

theorem row {Q : Expr → List Leaf → Prop} (h : ∀ a, Q a a.leaves) : Bears allows Form.row Q :=
  Meets.row fun _ _ a carries => ⟨a.leaves, carries, h a⟩

theorem oneOf {read : Kind → Option α} (silent : ∀ k a, read k = some a → isSilent k = true)
    (h : ∀ a, Q a []) : Bears allows (Form.oneOf read) Q :=
  Meets.oneOf fun _ s a value => ⟨[], .silent (silent s.kind a value), h a⟩

theorem flag {k : Keyword} {Q : Bool → List Leaf → Prop} (silent : isSilent (.keyword k) = true)
    (h : ∀ b, Q b []) : Bears allows (Form.flag k) Q :=
  .or (.map (.mark silent (h true))) (.pure (h false))

theorem optional {F : Form α} {Q : Option α → List Leaf → Prop}
    (some_ : Bears allows F fun a l => Q (some a) l) (none_ : Q none []) :
    Bears allows (Form.optional F) Q :=
  .or (.map some_) (.pure none_)

theorem inParens {n : Nat} {w : Word} {l : List Leaf} {opening closing : String}
    (h : Carries false n w l false) :
    Carries false n (⟨.leftParen, opening⟩ :: (w ++ [⟨.rightParen, closing⟩])) l false := by
  have left : Carries false n [⟨.leftParen, opening⟩] [] false := .silent rfl
  have right : Carries false (n + w.questions) [⟨.rightParen, closing⟩] [] false := .silent rfl
  simpa using left.append (h.append right)

theorem parens {F : Form α} (h : Bears allows F Q) : Bears allows (.parens F) Q := by
  refine Meets.parens h ?_
  rintro n w a opening closing ⟨l, carries, holds⟩
  exact ⟨l, inParens carries, holds⟩

theorem prefer {F : Form β} {H : Form γ} {f : β ⊕ γ → α} (first : Bears allows F fun b l => Q (f (.inl b)) l)
    (second : Bears allows H fun c l => Q (f (.inr c)) l) : Bears allows (.prefer F H f) Q := by
  refine Meets.prefer first second ?_ ?_
  · rintro n w b opening closing ⟨l, carries, holds⟩
    exact ⟨l, inParens carries, holds⟩
  · rintro n w c opening closing _ _ ⟨l, carries, holds⟩
    exact ⟨l, inParens carries, holds⟩

theorem many {F : Form α} {leaves : α → List Leaf} (h : Bears allows F fun a l => l = leaves a) :
    Bears allows (Form.many F) fun items l => l = items.flatMap leaves := by
  refine Meets.weaken (Meets.many h) fun n w items each => ?_
  refine ⟨_, ?_, rfl⟩
  induction each with
  | nil n => exact .nil false n
  | cons first _ ih =>
      obtain ⟨l, carries, rfl⟩ := first
      exact carries.append ih

theorem separated {k : Kind} {F : Form α} {leaves : α → List Leaf} (silent : isSilent k = true)
    (h : Bears allows F fun a l => l = leaves a) :
    Bears allows (Form.separated k F) fun items l => l = items.flatMap leaves :=
  .seq (.many (.after silent h)) (.map (h.weaken fun a l same rest r others => by
    rw [same, others, List.flatMap_cons]))

theorem fold {F : Form α} {G : Form β} {step : α → β → α} {leaves : α → List Leaf} {leaves' : β → List Leaf}
    (first : Bears allows F fun a l => l = leaves a) (next : Bears allows G fun b l => l = leaves' b)
    (goes : ∀ a b, leaves (step a b) = leaves a ++ leaves' b) :
    Bears allows ((fun first rest => List.foldl step first rest) <$> F <*> Form.many G)
      fun a l => l = leaves a := by
  refine Meets.fold first next ?_
  rintro n u v a b ⟨l, front, rfl⟩ ⟨r, back, rfl⟩
  exact ⟨_, front.append back, (goes a b).symm⟩

end Bears

section

variable {allows : Allows}

private theorem name_bears : Bears allows name fun t l => l = [.name t] :=
  Meets.text fun _ _ => ⟨_, .leaf rfl, rfl⟩

private theorem names_bears {k : Kind} (silent : isSilent k = true) :
    Bears allows (Form.separated k name) fun names l => l = names.map .name :=
  (Bears.separated silent name_bears).weaken fun names l same => by rw [same, List.map_eq_flatMap]

private theorem nameAfterAs_bears : Bears allows nameAfterAs fun t l => l = [.name t] :=
  .or (.after rfl name_bears) name_bears

private theorem alias_bears :
    Bears allows (Form.optional nameAfterAs) fun o l => l = o.toList.map .name :=
  .optional nameAfterAs_bears rfl

private theorem columns_bears : Bears allows columns fun names l => l = names.map .name :=
  .or (.parens (names_bears rfl)) (.pure rfl)

private theorem condition_bears :
    Bears allows (Form.construct .condition) fun (e : Expr) l => l = e.leaves :=
  .construct fun _ => rfl

private theorem row_bears : Bears allows Form.row fun e l => l = e.leaves := .row fun _ => rfl

private theorem query_bears :
    Bears allows (Form.construct .query) fun (q : Statement) l => l = q.leaves :=
  .construct fun _ => rfl

private theorem clause_bears {k : Keyword} (silent : isSilent (.keyword k) = true) :
    Bears allows (Form.optional (Form.word k *> Form.construct .condition))
      fun (o : Option Expr) l => l = Expr.leavesOption o :=
  .optional (.after silent condition_bears) rfl

private theorem conditions_bears : Bears allows conditions fun es l => l = Expr.leavesList es :=
  (Bears.separated rfl condition_bears).weaken fun es l same => by rw [same, Expr.leavesList_eq]

private theorem arguments_bears : Bears allows arguments fun es l => l = Expr.leavesList es :=
  .parens (.or conditions_bears (.pure rfl))

private theorem column_bears : Bears allows column fun e l => l = e.leaves := by
  refine .or (.before rfl (.map ?_)) (.map (names_bears rfl))
  refine (Bears.many (.before rfl name_bears)).weaken fun names l same => ?_
  exact same.trans List.map_eq_flatMap.symm

private theorem functionWord_bears : Bears allows functionWord fun t l => l = [.name t] := by
  refine Meets.symbol fun n s t _ value => ⟨_, .leaf ?_, rfl⟩
  obtain ⟨kind, text⟩ := s
  have named : ∀ k ∈ functionWords.map .keyword, ∀ n, Symbol.leaf? false n ⟨k, text⟩ = some (.name text) := by
    simp [functionWords, Symbol.leaf?, Token.Keyword.isFunctionName]
  obtain ⟨function, same⟩ := Option.ite_none_right_eq_some.mp value
  cases same
  exact named kind function n

private theorem call_bears : Bears allows call fun e l => l = e.leaves := by
  have function : Bears allows (path <|> (fun n => [n]) <$> functionWord)
      fun names l => l = names.map .name :=
    .or (names_bears rfl) (.map functionWord_bears)
  refine .seq arguments_bears (.map (function.weaken ?_))
  rintro names _ rfl arguments _ rfl
  rfl

private theorem case_bears : Bears allows case fun e l => l = e.leaves := by
  have branch : Bears allows case.branch fun b l => l = b.1.leaves ++ b.2.leaves := by
    refine .seq (.after rfl condition_bears) (.map (.after rfl (condition_bears.weaken ?_)))
    rintro condition _ rfl result _ rfl
    rfl
  have operand : Bears allows (Form.optional Form.row) fun o l => l = Expr.leavesOption o :=
    .optional row_bears rfl
  refine .before rfl (.seq (clause_bears rfl) (.seq (.many branch) (.seq branch (.map (.after rfl
    (operand.weaken ?_))))))
  rintro o _ rfl first _ rfl rest _ rfl otherwise _ rfl
  simp [Expr.leaves, Expr.leavesBranches_eq]

private theorem literal_bears : Bears allows literal fun e l => l = e.leaves := by
  have word : ∀ {k : Keyword} {e : Expr} {l : Leaf}, e.leaves = [l] →
      (∀ n t, Symbol.leaf? false n ⟨.keyword k, t⟩ = some l) →
      Bears allows ((fun _ => e) <$> Form.word k) fun e l => l = e.leaves :=
    fun same leaf => .map (Meets.mark fun n t => ⟨_, .leaf (leaf n t), same.symm⟩)
  refine .or ?number (.or ?string (.or ?true (.or ?false ?null)))
  case number => exact .map (Meets.text fun _ _ => ⟨_, .leaf rfl, rfl⟩)
  case string => exact .map (Meets.text fun _ _ => ⟨_, .leaf rfl, rfl⟩)
  case true => exact word (l := .bool true) rfl fun _ _ => rfl
  case false => exact word (l := .bool false) rfl fun _ _ => rfl
  case null => exact word (l := .null) rfl fun _ _ => rfl

private theorem sign_bears {k : Kind} {op : UnaryOp} (silent : isSilent k = true) :
    Bears allows (Expr.unary op <$> (Form.mark k *> Form.construct .signed)) fun e l => l = e.leaves :=
  .map (.after silent (.construct fun _ => rfl))

private theorem chain_bears {operator : Kind → Option BinaryOp} {F : Form Expr}
    (silent : ∀ k op, operator k = some op → isSilent k = true)
    (h : Bears allows F fun e l => l = e.leaves) :
    Bears allows (Form.chain operator F) fun e l => l = e.leaves := by
  have next : Bears allows (Prod.mk <$> Form.oneOf operator <*> F) fun next l => l = next.2.leaves := by
    refine .seq h (.map (.oneOf silent ?_))
    rintro op e _ rfl
    rfl
  exact .fold h next fun left next => rfl

private theorem primary_bears : Bears allows primary fun e l => l = e.leaves := by
  have parenthesis : Bears allows parenthesis fun e l => l = e.leaves := by
    refine .prefer (query_bears.weaken ?_) (conditions_bears.weaken ?_)
    · rintro q _ rfl
      rfl
    · rintro es _ rfl
      match es with
      | [] => rfl
      | [e] => simp [listed, Expr.leavesList]
      | _ :: _ :: _ => rfl
  have parameter : Bears allows (.parameter Expr.parameter) fun (e : Expr) l => l = e.leaves :=
    Meets.parameter fun _ _ => ⟨_, .leaf rfl, rfl⟩
  exact .or literal_bears (.or parameter (.or (.or (sign_bears rfl) (sign_bears rfl)) (.or case_bears
    (.or column_bears (.or call_bears parenthesis)))))

private theorem sum_bears : Bears allows sum fun e l => l = e.leaves := by
  have power : Bears allows power fun e l => l = e.leaves :=
    chain_bears (terms_silent rfl) primary_bears
  have product : Bears allows product fun e l => l = e.leaves :=
    chain_bears (terms_silent rfl) power
  exact chain_bears (terms_silent rfl) product

/-- What follows the operand of a predicate adds leaves to those of the operand. -/
private def Adds (f : Expr → Expr) (l : List Leaf) : Prop := ∀ operand, (f operand).leaves = operand.leaves ++ l

private theorem comparisonEnd_bears : Bears allows comparisonEnd Adds := by
  refine .or ?row ?query
  case row =>
    refine .seq row_bears (.map (.oneOf (terms_silent rfl) ?_))
    rintro op right _ rfl left
    rw [List.nil_append]
    rfl
  case query =>
    refine .seq (.parens query_bears) (.seq (P := fun _ l => l = [])
      (.oneOf (terms_silent rfl) fun _ => rfl) (.map (.oneOf (terms_silent rfl) ?_)))
    rintro op quantifier _ rfl query _ rfl left
    rw [List.nil_append, List.nil_append]
    rfl

private theorem betweenEnd_bears : Bears allows betweenEnd Adds := by
  refine .seq (.after rfl row_bears) (.seq (.after rfl row_bears) (.map (.flag rfl ?_)))
  rintro negated low _ rfl high _ rfl operand
  simp [Expr.leaves]

private theorem inEnd_bears : Bears allows inEnd Adds := by
  have values : Bears allows (.prefer (Form.construct .query) conditions id)
      fun (x : Statement ⊕ List Expr) l => l = Sum.elim Statement.leaves Expr.leavesList x :=
    .prefer query_bears conditions_bears
  refine .seq (.after rfl values) (.map (.flag rfl ?_))
  rintro negated (query | values) _ rfl operand <;> simp [Expr.leaves]

private theorem likeEnd_bears : Bears allows likeEnd Adds := by
  have escape : Bears allows (Form.optional (Form.word .ESCAPE *> Form.row))
      fun o l => l = Expr.leavesOption o :=
    .optional (.after rfl row_bears) rfl
  refine .seq escape (.seq (.after rfl row_bears) (.map (.flag rfl ?_)))
  rintro negated pattern _ rfl escape _ rfl operand
  simp [Expr.leaves]

private theorem is_carries : Meets allows known (Form.word .IS *> Form.flag .NOT)
    fun n w _ => Carries false n w [] true := by
  refine .seqRight (R := fun n w _ => Carries true n w [] true) ?not (.mark fun n t v _ back => ?is)
  case not => exact .flag (fun n t => .symbol true n ⟨.keyword .NOT, t⟩) fun n => .nil true n
  case is => exact (Carries.symbol false n ⟨.keyword .IS, t⟩).append back

private theorem nullEnd_bears : Bears allows nullEnd Adds := by
  have null : Meets allows known (Form.word .NULL) fun n w _ => Carries true n w [] false :=
    .mark fun n t => .symbol true n ⟨.keyword .NULL, t⟩
  refine Meets.seqLeft null (.map (is_carries.weaken fun n u negated front v _ back => ?_))
  exact ⟨[], front.append back, fun operand => (List.append_nil operand.leaves).symm⟩

private theorem operand_bears {F : Form Expr} {E : Form (Expr → Expr)}
    (first : Bears allows F fun e l => l = e.leaves) (last : Bears allows E Adds) :
    Bears allows ((fun operand f => f operand) <$> F <*> E) fun e l => l = e.leaves := by
  refine .seq last (.map (first.weaken ?_))
  rintro operand _ rfl f l adds
  exact (adds operand).symm

private theorem nothing_bears : Bears allows (pure id) Adds :=
  .pure fun operand => by rw [id, List.append_nil]

private theorem predicate_bears : Bears allows predicate fun e l => l = e.leaves := by
  refine .or (.map (.after rfl (.parens query_bears))) (operand_bears row_bears ?_)
  exact .or comparisonEnd_bears (.or nullEnd_bears (.or betweenEnd_bears (.or inEnd_bears (.or likeEnd_bears
    nothing_bears))))

private theorem truthTest_bears : Bears allows truthTest fun e l => l = e.leaves := by
  have value : Meets allows known truthValue fun n w _ => Carries true n w [] false := by
    refine .oneOf fun n s a found => ?_
    obtain ⟨kind, t⟩ := s
    have carries := Carries.symbol true n ⟨kind, t⟩
    have word := Form.mem_of_terms found
    simp only [List.mem_cons, Prod.mk.injEq, List.not_mem_nil, or_false] at word
    obtain ⟨rfl, _⟩ | ⟨rfl, _⟩ | ⟨rfl, _⟩ := word <;> exact carries
  refine operand_bears predicate_bears (.or ?_ nothing_bears)
  refine Meets.seq value (.map (is_carries.weaken fun n u negated front v a back => ?_))
  exact ⟨[], front.append back, fun operand => (List.append_nil operand.leaves).symm⟩

private theorem negation_bears : Bears allows negation fun e l => l = e.leaves :=
  .or (.map (.after rfl (.construct fun _ => rfl))) truthTest_bears

private theorem condition_rule_bears : Bears allows condition fun e l => l = e.leaves := by
  have conjunction : Bears allows conjunction fun e l => l = e.leaves :=
    chain_bears (terms_silent rfl) negation_bears
  exact chain_bears (terms_silent rfl) conjunction

private theorem joinSide_bears : Bears allows joinSide fun _ l => l = [] := by
  have side : ∀ {k : Keyword} {f : Bool → JoinSide}, isSilent (.keyword k) = true →
      Bears allows (f <$> (Form.word k *> Form.flag .OUTER)) fun _ l => l = [] :=
    fun silent => .map (.after silent (.flag rfl fun _ => rfl))
  exact .or (.map (.mark rfl rfl)) (.or (side rfl) (.or (side rfl) (.or (side rfl) (.pure rfl))))

private theorem conditionedJoin_bears : Bears allows conditionedJoin fun _ l => l = [] :=
  .before rfl (.map joinSide_bears)

private theorem plainJoin_bears : Bears allows plainJoin fun _ l => l = [] :=
  .or (.map (.after rfl (.mark rfl rfl))) (.before rfl (.map (.after rfl joinSide_bears)))

private theorem tablePrimary_bears : Bears allows tablePrimary fun t l => l = t.leaves := by
  refine .or ?relation (.or ?derived (.parens (.construct fun _ => rfl)))
  case relation =>
    refine .seq alias_bears (.map ((names_bears rfl).weaken ?_))
    rintro path _ rfl aliasName _ rfl
    rfl
  case derived =>
    refine .seq columns_bears (.seq nameAfterAs_bears (.map (.parens (query_bears.weaken ?_))))
    rintro query _ rfl aliasName _ rfl columns _ rfl
    simp [TableRef.leaves]

private def joinLeaves (next : JoinKind × TableRef × Option Expr) : List Leaf :=
  next.2.1.leaves ++ Expr.leavesOption next.2.2

private theorem joinEnd_bears : Bears allows joinEnd fun next l => l = joinLeaves next := by
  refine .or ?conditioned ?plain
  case conditioned =>
    refine .seq (.after rfl condition_bears) (.seq tablePrimary_bears (.map
      (conditionedJoin_bears.weaken ?_)))
    rintro kind _ rfl right _ rfl on _ rfl
    rfl
  case plain =>
    refine .seq tablePrimary_bears (.map (plainJoin_bears.weaken ?_))
    rintro kind _ rfl right _ rfl
    simp [joinLeaves, Expr.leavesOption]

private theorem table_bears : Bears allows table fun t l => l = t.leaves :=
  .fold tablePrimary_bears joinEnd_bears fun left next =>
    List.append_assoc left.leaves next.2.1.leaves (Expr.leavesOption next.2.2)

private theorem setQuantifier_bears : Bears allows setQuantifier fun _ l => l = [] :=
  .or (.oneOf (terms_silent rfl) fun _ => rfl) (.pure rfl)

private theorem projection_bears : Bears allows projection fun p l => l = p.leaves := by
  refine .seq alias_bears (.map (row_bears.weaken ?_))
  rintro e _ rfl aliasName _ rfl
  rfl

private theorem orderItem_bears : Bears allows orderItem fun k l => l = k.expr.leaves := by
  have direction : Bears allows direction fun _ l => l = [] := .or (.oneOf (terms_silent rfl) fun _ => rfl) (.pure rfl)
  refine .seq direction (.map (row_bears.weaken ?_))
  rintro e _ rfl d _ rfl
  rw [List.append_nil]

private theorem tables_bears : Bears allows tables fun ts l => l = TableRef.leavesList ts := by
  have entry : Bears allows (Form.construct .table) fun (t : TableRef) l => l = t.leaves :=
    .construct fun _ => rfl
  exact .or (.after rfl ((Bears.separated rfl entry).weaken fun ts l same => by
    rw [same, TableRef.leavesList_eq])) (.pure rfl)

private theorem grouping_bears : Bears allows grouping fun g l => l = Expr.leavesList g.items := by
  have items : Bears allows (Form.commas Form.row) fun es l => l = Expr.leavesList es :=
    (Bears.separated rfl row_bears).weaken fun es l same => by rw [same, Expr.leavesList_eq]
  refine .seq items (.map (.after₂ rfl rfl (setQuantifier_bears.weaken ?_)))
  rintro quantifier _ rfl items _ rfl
  rfl

private theorem selectBlock_bears : Bears allows selectBlock fun b l => l = b.leaves := by
  have entries : Bears allows (Form.commas projection) fun ps l => l = Projection.leavesList ps :=
    (Bears.separated rfl projection_bears).weaken fun ps l same => by rw [same, Projection.leavesList_eq]
  have group : Bears allows (Form.optional grouping) fun o l => l = Grouping.leavesOption o :=
    .optional (grouping_bears.weaken fun g l same => by
      cases g
      exact same) rfl
  refine .seq (clause_bears rfl) (.seq group (.seq (clause_bears rfl) (.seq tables_bears (.seq entries
    (.map (.after rfl (setQuantifier_bears.weaken ?_)))))))
  rintro quantifier _ rfl ps _ rfl ts _ rfl filter _ rfl g _ rfl having _ rfl
  simp [SelectBlock.leaves]

private theorem setChain_bears {operator : Kind → Option SetOp} {F : Form Body}
    (silent : ∀ k op, operator k = some op → isSilent k = true)
    (h : Bears allows F fun b l => l = b.leaves) :
    Bears allows (setChain operator F) fun b l => l = b.leaves := by
  have next : Bears allows ((fun op quantifier right => (op, quantifier, right)) <$> Form.oneOf operator <*>
      setQuantifier <*> F) fun next l => l = next.2.2.leaves := by
    refine .seq h (.seq setQuantifier_bears (.map (.oneOf silent ?_)))
    rintro op quantifier _ rfl b _ rfl
    rfl
  exact .fold h next fun left next => rfl

private theorem body_bears : Bears allows body fun b l => l = b.leaves := by
  have primary : Bears allows bodyPrimary fun b l => l = b.leaves :=
    .or (.map (selectBlock_bears.weaken fun _ _ same => same))
      (.parens (.construct fun _ => rfl))
  have term : Bears allows term fun b l => l = b.leaves :=
    setChain_bears (terms_silent rfl) primary
  exact setChain_bears (terms_silent rfl) term

private theorem withClause_bears :
    Bears allows withClause fun c l => l = NamedQuery.leavesList c.queries := by
  have named : Bears allows namedQuery fun q l => l = q.leaves := by
    refine .seq (.after rfl (.parens query_bears)) (.seq columns_bears (.map (name_bears.weaken ?_)))
    rintro name _ rfl columns _ rfl query _ rfl
    simp [NamedQuery.leaves]
  refine .seq (Bears.separated rfl named) (.map (.after rfl (.flag rfl ?_)))
  rintro recursive queries _ rfl
  exact (NamedQuery.leavesList_eq queries).symm

private theorem query_rule_bears : Bears allows query fun q l => l = q.leaves := by
  have clause : Bears allows (Form.optional withClause) fun o l => l = WithClause.leavesOption o :=
    .optional (withClause_bears.weaken fun c l same => by
      cases c
      exact same) rfl
  have order : Bears allows orderBy fun items l => l = OrderItem.leavesList items :=
    .or (.after₂ rfl rfl ((Bears.separated rfl orderItem_bears).weaken fun items l same => by
      rw [same, OrderItem.leavesList_eq])) (.pure rfl)
  refine .seq order (.seq body_bears (.map (clause.weaken ?_)))
  rintro clause _ rfl body _ rfl items _ rfl
  rfl

private theorem rules_bear (X : Nonterminal) : Meets allows known (rules X) (known X) := by
  have exact : ∀ {α : Type} {F : Form α} {leaves : α → List Leaf}, Bears allows F (fun a l => l = leaves a) →
      Meets allows known F fun n w a => Carries false n w (leaves a) false :=
    fun h => Meets.weaken h fun n w a ⟨l, carries, same⟩ => same ▸ carries
  match X with
  | .row => exact (exact sum_bears)
  | .construct .query => exact (exact query_rule_bears)
  | .construct .body => exact (exact body_bears)
  | .construct .condition => exact (exact condition_rule_bears)
  | .construct .negated => exact (exact negation_bears)
  | .construct .signed => exact (exact primary_bears)
  | .construct .table => exact (exact table_bears)

theorem Derives.carries {e : Parse.Entry} {n : Nat} {w : Word} {a : e.Result}
    (h : Derives allows (Form.construct e) n w a) : Carries false n w (e.leaves a) false :=
  Meets.holds rules_bear (Meets.construct fun _ _ _ carries => carries) h

end

end Grammar

namespace Session

open Parse
open Grammar (Carries anyReading)

def Call.leaves : (c : Call) → c.Result → List Leaf
  | .statement | .query => Statement.leaves
  | .condition => Expr.leaves

theorem inside_any {s : Session} {e : Entry} {a : e.Result} {t : State} (run : s.inside e s.state = .ok a t) :
    Reads anyReading s.state (Form.construct e) a t := by
  have levels : s.levels ≤ s.levels + (s.state.remaining + 1) := Nat.le_add_right ..
  rcases (levelled_restricts s.limit 0 levels e).2 s.state s.complete with ⟨f, u, refused, _⟩ | same
  · cases run.symm.trans refused
  · exact levelled_sound_any _ _ e s.state a t s.complete (by omega) (same.symm.trans run)

/-- The tokens that a rule takes hold the leaves of the tree that it gives. -/
private theorem parser_carries (c : Call) {s : Session} {a : c.Result} {t : State}
    (run : c.parser s s.state = .ok a t) :
    ∃ w, s.state.Spells w t ∧ Carries false s.parameters w (c.leaves a) false := by
  have construct : ∀ {e : Entry} {a : e.Result} {t : State}, s.inside e s.state = .ok a t →
      ∃ w, s.state.Spells w t ∧ Carries false s.parameters w (e.leaves a) false := by
    intro e a t run
    obtain ⟨_, w, spells, derives⟩ := inside_any run
    exact ⟨w, spells, derives.carries⟩
  cases c with
  | query => exact construct run
  | condition => exact construct run
  | statement =>
      obtain ⟨m, first, last, _⟩ := wholeStatement_eq_ok.mp run
      obtain ⟨w, spells, carries⟩ := construct first
      rcases last with ⟨kind, rfl⟩ | ⟨_, rfl⟩
      · have semicolon : m.Spells [m.token.symbol] m.advance :=
          (State.spells_single_iff (spells.within.complete s.complete)).mpr ⟨rfl, by rw [kind]; rfl,
            (State.next_eq_advance (by rw [kind]; simp)).symm⟩
        have silent : Carries false (s.parameters + w.questions) [m.token.symbol] [] false :=
          .silent (by rw [show m.token.symbol.kind = .semicolon from kind]; rfl)
        have whole := carries.append silent
        rw [List.append_nil] at whole
        exact ⟨_, spells.trans semicolon, whole⟩
      · exact ⟨w, spells, carries⟩

/-- Where a rule succeeds, the tokens of the text are those that it took, and then those left to the scanner.
The leaves of the tree are the leaves in the tokens that were taken, each once and in order; the parameters
among them are numbered from one. -/
theorem leaves_eq_consumed (c : Call) (text : String) (config : Config) {a : c.Result}
    (run : (c.run (ofText text config)).1 = .ok a) :
    ∃ consumed, (Scanner.ofText text).tokenize =
        consumed ++ (c.run (ofText text config)).2.scanner.tokenize ∧
      c.leaves a = Word.leaves (consumed.map Token.symbol) ∧
      (c.leaves a).filterMap Leaf.position? =
        List.range' 1 (Word.questions (consumed.map Token.symbol)) := by
  rw [c.run_eq, Session.run] at run ⊢
  cases read : c.parser (ofText text config) (ofText text config).state with
  | error f t =>
      rw [read] at run
      cases run
  | ok b t =>
      rw [read] at run
      cases run
      obtain ⟨w, spells, carries⟩ := parser_carries c read
      have within : t.Within (ofText text config).state := spells.within
      obtain ⟨consumed, snapshots, rfl, _⟩ := spells
      have leaves : c.leaves a = Word.leaves (consumed.map fun p => p.token.symbol) :=
        carries.leaves_eq.symm
      have symbols : (consumed.map Snapshot.token).map Token.symbol =
          consumed.map fun p => p.token.symbol := List.map_map
      refine ⟨consumed.map Snapshot.token, ?_, ?_, ?_⟩
      · rw [tokenize_moveTo within, ← List.map_append, ← snapshots]
        rfl
      · rw [symbols, leaves]
      · rw [symbols, leaves]
        exact Word.leavesFrom_positions false 0 _

/-- Two parameters, the first of which is met again after an attempt to read a query. -/
theorem leaves_eq_consumed_parameters :
    let r := Call.condition.run (ofText "((?) + a) = ?" {})
    let e : Expr := .binary .eq (.binary .add (.parameter 1) (.column ["a"] false)) (.parameter 2)
    r.1 = .ok e ∧ ∃ consumed, (Scanner.ofText "((?) + a) = ?").tokenize = consumed ++ r.2.scanner.tokenize ∧
      e.leaves = Word.leaves (consumed.map Token.symbol) ∧
      e.leaves.filterMap Leaf.position? = List.range' 1 (Word.questions (consumed.map Token.symbol)) := by
  have run : (Call.condition.run (ofText "((?) + a) = ?" {})).1 =
      .ok (.binary .eq (.binary .add (.parameter 1) (.column ["a"] false)) (.parameter 2)) := rfl
  exact ⟨run, leaves_eq_consumed .condition _ {} run⟩

end Session

end SelectSyntax
