import SelectSyntax.Session

/-!
The grammar of the language, apart from any parser: forms of phrases with the trees that they stand for,
a form for each construct, and derivations of words from forms. A phrase between parentheses may have two
readings; a way to derive decides where the second of them is allowed.
-/

set_option autoImplicit false
set_option relaxedAutoImplicit false

namespace SelectSyntax

open Token (Kind Keyword)
open SyntaxTree

/-- What a grammar sees of a token: its kind and the text that it stands for. -/
structure Symbol where
  kind : Kind
  text : String
  deriving DecidableEq, Repr

def Token.symbol (t : Token) : Symbol := ⟨t.kind, t.value⟩

abbrev Word := List Symbol

/-- A symbol that is neither a parenthesis nor the end of a text. -/
def Symbol.isPlain (s : Symbol) : Bool :=
  s.kind != .leftParen && s.kind != .rightParen && !s.kind.isTerminal

def Word.questions (w : Word) : Nat := w.countP fun s => s.kind == .question

/-- The nonterminals through which the grammar comes back to itself. -/
inductive Nonterminal where
  | construct (e : Parse.Entry)
  | row

abbrev Nonterminal.Result : Nonterminal → Type
  | .construct e => e.Result
  | .row => Expr

/-- Forms of phrases with values of a type: the empty phrase, a single symbol, a parameter mark, a
nonterminal, a form after another one, either of two forms, a form repeated, a form between parentheses,
and either of two forms between parentheses where the first is preferred. -/
inductive Form : Type → Type 1 where
  | empty {α : Type} (a : α) : Form α
  | symbol {α : Type} (read : Symbol → Option α) : Form α
  | parameter {α : Type} (f : Nat → α) : Form α
  | nonterminal {α : Type} (X : Nonterminal) (f : X.Result → α) : Form α
  | sequence {α β : Type} (first : Form (β → α)) (second : Form β) : Form α
  | choice {α : Type} (first second : Form α) : Form α
  | repeated {α β : Type} (item : Form β) (f : List β → α) : Form α
  | parens {α : Type} (inside : Form α) : Form α
  | prefer {α β γ : Type} (first : Form β) (second : Form γ) (f : β ⊕ γ → α) : Form α

namespace Form

instance : Applicative Form where
  pure := .empty
  seq first second := .sequence first (second ())

instance {α : Type} : OrElse (Form α) where
  orElse first second := .choice first (second ())

variable {α β : Type}

def construct (e : Parse.Entry) : Form e.Result := .nonterminal (.construct e) id

def row : Form Expr := .nonterminal .row id

def text (k : Kind) : Form String := .symbol fun s => if s.kind = k then some s.text else none

def mark (k : Kind) : Form Unit := .symbol fun s => if s.kind = k then some () else none

def word (k : Keyword) : Form Unit := mark (.keyword k)

/-- What each of some kinds stands for. -/
def terms (l : List (Kind × α)) (k : Kind) : Option α := l.lookup k

theorem mem_of_terms {l : List (Kind × α)} {k : Kind} {a : α} (found : terms l k = some a) : (k, a) ∈ l := by
  obtain ⟨l₁, l₂, rfl, _⟩ := List.lookup_eq_some_iff.mp found
  exact List.mem_append_right l₁ List.mem_cons_self

/-- What can be checked of all kinds with what they stand for holds of each of them. -/
theorem terms_all {l : List (Kind × α)} {p : Kind → α → Bool} (all : l.all (fun q => p q.1 q.2) = true) {k : Kind}
    {a : α} (found : terms l k = some a) : p k a = true :=
  List.all_eq_true.mp all (k, a) (mem_of_terms found)

def oneOf (read : Kind → Option α) : Form α := .symbol fun s => read s.kind

def optional (F : Form α) : Form (Option α) := some <$> F <|> pure none

def flag (k : Keyword) : Form Bool := (fun _ => true) <$> word k <|> pure false

def many (F : Form α) : Form (List α) := .repeated F id

def separated (k : Kind) (F : Form α) : Form (List α) := List.cons <$> F <*> many (mark k *> F)

def commas (F : Form α) : Form (List α) := separated .comma F

/-- Operands with operators between them, grouped from the left. -/
def chain (operator : Kind → Option BinaryOp) (operand : Form Expr) : Form Expr :=
  (fun first rest => rest.foldl (fun left next => .binary next.1 left next.2) first) <$> operand <*>
    many (Prod.mk <$> oneOf operator <*> operand)

end Form

namespace Grammar

open Form

def name : Form String := text .identifier

def path : Form (List String) := separated .dot name

def nameAfterAs : Form String := word .AS *> name <|> name

def columns : Form (List String) := parens (commas name) <|> pure []

def conditions : Form (List Expr) := commas (construct .condition)

def arguments : Form (List Expr) := parens (conditions <|> pure [])

/-- `[name. ...] *`, or names with points between them -/
def column : Form Expr :=
  (fun names => .column names true) <$> many (name <* mark .dot) <* mark .star <|>
    (fun names => .column names false) <$> path

def functionWords : List Keyword := [.AVG, .COUNT, .GROUPING, .MAX, .MIN, .NULLIF, .RANK, .SUM]

def functionWord : Form String :=
  .symbol fun s => if s.kind ∈ functionWords.map .keyword then some s.text else none

def call : Form Expr := .call <$> (path <|> (fun n => [n]) <$> functionWord) <*> arguments

/-- `CASE [row] WHEN condition THEN condition ... [ELSE condition] END` -/
def case : Form Expr :=
  (fun operand first rest => .case operand (first :: rest)) <$> (word .CASE *> optional row) <*>
    branch <*> many branch <*> optional (word .ELSE *> construct .condition) <* word .END
where
  branch : Form (Expr × Expr) :=
    Prod.mk <$> (word .WHEN *> construct .condition) <*> (word .THEN *> construct .condition)

def literal : Form Expr :=
  .number <$> text .number <|> .string <$> text .string <|>
    (fun _ => .bool true) <$> word .TRUE <|> (fun _ => .bool false) <$> word .FALSE <|>
    (fun _ => .null) <$> word .NULL

def signed : Form Expr :=
  .unary .plus <$> (mark .plus *> construct .signed) <|>
    .unary .neg <$> (mark .minus *> construct .signed)

/-- What a list in parentheses stands for: a single item for itself. -/
def listed : List Expr → Expr
  | [item] => item
  | items => .list items

def parenthesis : Form Expr := prefer (construct .query) conditions (Sum.elim .subquery listed)

def primary : Form Expr :=
  literal <|> .parameter .parameter <|> signed <|> case <|> column <|> call <|> parenthesis

def power : Form Expr := chain (terms [(.caret, .pow)]) primary

def product : Form Expr :=
  chain (terms [(.star, .mul), (.slash, .div), (.percent, .mod)]) power

def sum : Form Expr :=
  chain (terms [(.plus, .add), (.minus, .sub), (.concat, .concat)]) product

def comparison : Form BinaryOp :=
  oneOf (terms [(.eq, .eq), (.notEq, .notEq), (.lt, .lt), (.ltEq, .ltEq), (.gt, .gt), (.gtEq, .gtEq)])

def quantifier : Form Quantifier :=
  oneOf (terms [(.keyword .ALL, .all), (.keyword .SOME, .some), (.keyword .ANY, .any)])

/-- What follows the row of a comparison: an operator with a row, or with a quantified query. -/
def comparisonEnd : Form (Expr → Expr) :=
  (fun op right left => .binary op left right) <$> comparison <*> row <|>
    (fun op quantifier query left => .quantified op quantifier left query) <$>
      comparison <*> quantifier <*> parens (construct .query)

def nullEnd : Form (Expr → Expr) := .is .null <$> (word .IS *> flag .NOT) <* word .NULL

/-- `[NOT] BETWEEN row AND row` -/
def betweenEnd : Form (Expr → Expr) :=
  (fun negated low high operand => .between negated operand low high) <$>
    flag .NOT <*> (word .BETWEEN *> row) <*> (word .AND *> row)

/-- `[NOT] IN ( query | conditions )` -/
def inEnd : Form (Expr → Expr) :=
  (fun negated x operand => match x with
    | .inl query => .inQuery negated operand query
    | .inr values => .inValues negated operand values) <$>
    flag .NOT <*> (word .IN *> prefer (construct .query) conditions id)

/-- `[NOT] LIKE row [ESCAPE row]` -/
def likeEnd : Form (Expr → Expr) :=
  (fun negated pattern escape operand => .like negated operand pattern escape) <$>
    flag .NOT <*> (word .LIKE *> row) <*> optional (word .ESCAPE *> row)

def predicate : Form Expr :=
  .existsQuery <$> (word .EXISTS *> parens (construct .query)) <|>
    (fun operand f => f operand) <$> row <*>
      (comparisonEnd <|> nullEnd <|> betweenEnd <|> inEnd <|> likeEnd <|> pure id)

def truthValue : Form TruthValue :=
  oneOf (terms [(.keyword .TRUE, .true), (.keyword .FALSE, .false), (.keyword .UNKNOWN, .unknown)])

def truthTest : Form Expr :=
  (fun operand f => f operand) <$> predicate <*>
    ((fun negated value => .is value negated) <$> (word .IS *> flag .NOT) <*>
      truthValue <|> pure id)

def negation : Form Expr := .unary .not <$> (word .NOT *> construct .negated) <|> truthTest

def conjunction : Form Expr := chain (terms [(.keyword .AND, .and)]) negation

def condition : Form Expr := chain (terms [(.keyword .OR, .or)]) conjunction

/-- The words of a join between `NATURAL` and `JOIN`. -/
def joinSide : Form JoinSide :=
  (fun _ => .inner) <$> word .INNER <|> .left <$> (word .LEFT *> flag .OUTER) <|>
    .right <$> (word .RIGHT *> flag .OUTER) <|> .full <$> (word .FULL *> flag .OUTER) <|>
    pure .plain

/-- The words of a join that an `ON` has to follow. -/
def conditionedJoin : Form JoinKind := .sided false <$> joinSide <* word .JOIN

/-- The words of a join that no `ON` may follow. -/
def plainJoin : Form JoinKind :=
  (fun _ => .cross) <$> (word .CROSS *> word .JOIN) <|>
    .sided true <$> (word .NATURAL *> joinSide) <* word .JOIN

/-- A table with an optional alias, a query in parentheses under a name, or a table reference in
parentheses. -/
def tablePrimary : Form TableRef :=
  .relation <$> path <*> optional nameAfterAs <|>
    .derived <$> parens (construct .query) <*> nameAfterAs <*> columns <|>
    parens (construct .table)

/-- What follows the left side of a join. -/
def joinEnd : Form (JoinKind × TableRef × Option Expr) :=
  (fun kind right on => (kind, right, some on)) <$> conditionedJoin <*> tablePrimary <*>
      (word .ON *> construct .condition) <|>
    (fun kind right => (kind, right, none)) <$> plainJoin <*> tablePrimary

/-- Joins grouped from the left. -/
def table : Form TableRef :=
  (fun first joins => joins.foldl (fun left next => .join next.1 left next.2.1 next.2.2) first) <$>
    tablePrimary <*> many joinEnd

def setQuantifier : Form SetQuantifier :=
  oneOf (terms [(.keyword .ALL, .all), (.keyword .DISTINCT, .distinct)]) <|> pure .unspecified

def projection : Form Projection := Projection.mk <$> row <*> optional nameAfterAs

def direction : Form Direction :=
  oneOf (terms [(.keyword .ASC, .asc), (.keyword .DESC, .desc)]) <|> pure .unspecified

def orderItem : Form OrderItem := OrderItem.mk <$> row <*> direction

def tables : Form (List TableRef) := word .FROM *> commas (construct .table) <|> pure []

def grouping : Form Grouping :=
  Grouping.mk <$> (word .GROUP *> word .BY *> setQuantifier) <*> commas row

/-- A `SELECT` block. -/
def selectBlock : Form SelectBlock :=
  SelectBlock.mk <$> (word .SELECT *> setQuantifier) <*> commas projection <*> tables <*>
    optional (word .WHERE *> construct .condition) <*> optional grouping <*>
    optional (word .HAVING *> construct .condition)

def bodyPrimary : Form Body := .block <$> selectBlock <|> parens (construct .body)

def setChain (operator : Kind → Option SetOp) (operand : Form Body) : Form Body :=
  (fun first rest => rest.foldl (fun left next => .setOp next.1 next.2.1 left next.2.2) first) <$>
    operand <*> many ((fun op quantifier right => (op, quantifier, right)) <$> oneOf operator <*>
      setQuantifier <*> operand)

def term : Form Body := setChain (terms [(.keyword .INTERSECT, .intersect)]) bodyPrimary

def body : Form Body :=
  setChain (terms [(.keyword .UNION, .union), (.keyword .EXCEPT, .except)]) term

/-- `name [( name, ... )] AS ( query )` -/
def namedQuery : Form NamedQuery :=
  NamedQuery.mk <$> name <*> columns <*> (word .AS *> parens (construct .query))

/-- `WITH [RECURSIVE] namedQuery, ...` -/
def withClause : Form WithClause :=
  WithClause.mk <$> (word .WITH *> flag .RECURSIVE) <*> commas namedQuery

def orderBy : Form (List OrderItem) := word .ORDER *> word .BY *> commas orderItem <|> pure []

def query : Form Statement := Statement.mk <$> optional withClause <*> body <*> orderBy

/-- The form of each nonterminal. -/
def rules : (X : Nonterminal) → Form X.Result
  | .construct .query => query
  | .construct .body => body
  | .construct .condition => condition
  | .construct .negated => negation
  | .construct .signed => primary
  | .construct .table => table
  | .row => sum

/-- `query [;]` -/
def script : Form Statement := construct .query <* optional (mark .semicolon)

/-- Where the second reading of a parenthesis is allowed, given the form of the first one, the number of
parameters in front of the word inside, and that word. -/
abbrev Allows := (α : Type) → Form α → Nat → Word → Prop

/-- Derivations of words from forms, with their values and the number of parameters in front. -/
inductive Derives (allows : Allows) : {α : Type} → Form α → Nat → Word → α → Prop where
  | empty {α : Type} {n : Nat} (a : α) : Derives allows (.empty a) n [] a
  | symbol {α : Type} {n : Nat} {read : Symbol → Option α} {s : Symbol} {a : α}
      (plain : s.isPlain = true) (value : read s = some a) :
      Derives allows (.symbol read) n [s] a
  | parameter {α : Type} {f : Nat → α} {n : Nat} {text : String} :
      Derives allows (.parameter f) n [⟨.question, text⟩] (f (n + 1))
  | nonterminal {α : Type} {X : Nonterminal} {f : X.Result → α} {n : Nat} {w : Word} {a : X.Result}
      (h : Derives allows (rules X) n w a) : Derives allows (.nonterminal X f) n w (f a)
  | sequence {α β : Type} {F : Form (β → α)} {H : Form β} {n : Nat} {u v : Word} {f : β → α} {b : β}
      (first : Derives allows F n u f) (second : Derives allows H (n + u.questions) v b) :
      Derives allows (.sequence F H) n (u ++ v) (f b)
  | left {α : Type} {F H : Form α} {n : Nat} {w : Word} {a : α} (h : Derives allows F n w a) :
      Derives allows (.choice F H) n w a
  | right {α : Type} {F H : Form α} {n : Nat} {w : Word} {a : α} (h : Derives allows H n w a) :
      Derives allows (.choice F H) n w a
  | none {α β : Type} {F : Form β} {f : List β → α} {n : Nat} :
      Derives allows (.repeated F f) n [] (f [])
  | more {α β : Type} {F : Form β} {f : List β → α} {n : Nat} {u v : Word} {b : β} {a : α}
      (first : Derives allows F n u b)
      (rest : Derives allows (.repeated F fun bs => f (b :: bs)) (n + u.questions) v a) :
      Derives allows (.repeated F f) n (u ++ v) a
  | parens {α : Type} {F : Form α} {n : Nat} {opening closing : String} {w : Word} {a : α}
      (h : Derives allows F n w a) : Derives allows (.parens F) n
        (⟨.leftParen, opening⟩ :: (w ++ [⟨.rightParen, closing⟩])) a
  | preferred {α β γ : Type} {F : Form β} {H : Form γ} {f : β ⊕ γ → α} {n : Nat}
      {opening closing : String} {w : Word} {b : β} (h : Derives allows F n w b) :
      Derives allows (.prefer F H f) n (⟨.leftParen, opening⟩ :: (w ++ [⟨.rightParen, closing⟩]))
        (f (.inl b))
  | other {α β γ : Type} {F : Form β} {H : Form γ} {f : β ⊕ γ → α} {n : Nat}
      {opening closing : String} {w : Word} {c : γ} (allowed : allows β F n w)
      (h : Derives allows H n w c) :
      Derives allows (.prefer F H f) n (⟨.leftParen, opening⟩ :: (w ++ [⟨.rightParen, closing⟩]))
        (f (.inr c))

/-- The second reading of a parenthesis is allowed everywhere. -/
def anyReading : Allows := fun _ _ _ _ => True

/-- The second reading of a parenthesis is allowed only where there is no first one. -/
def firstReading : Allows := fun _ F n w => ¬∃ a, Derives anyReading F n w a

/-- Tokens that are a script, and nothing but the end of the text after it. -/
def IsScript (allows : Allows) (tokens : List Token) (t : Statement) : Prop :=
  ∃ w last, tokens.map Token.symbol = w ++ [last] ∧ last.kind = .eof ∧ Derives allows script 0 w t

end Grammar

end SelectSyntax
