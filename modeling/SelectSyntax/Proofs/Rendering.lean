import SelectSyntax.Proofs.Denotation

/-!
The pieces that a tree is written as stand for the tree: a case for each kind of node, with the tier that
reads it.
-/

set_option autoImplicit false
set_option relaxedAutoImplicit false

namespace SelectSyntax.Render

open Grammar (Denotes tier)
open Piece (gap mark word wordsThenGap gapThenWords parens parensIf commas)
open Token (Kind Keyword)
open SyntaxTree

theorem exprs_eq (es : List Expr) : exprs es = es.map expr := by
  induction es with
  | nil => rfl
  | cons e es ih => rw [exprs, ih, List.map_cons]

theorem rows_eq (es : List Expr) : rows es = es.map fun e => atLevel Level.sum e (expr e) := by
  induction es with
  | nil => rfl
  | cons e es ih => rw [rows, ih, List.map_cons]

theorem projections_eq (ps : List Projection) :
    projections ps = ps.map fun p => atLevel Level.sum p.expr (expr p.expr) ++ aliasPart p.aliasName := by
  induction ps with
  | nil => rfl
  | cons p ps ih =>
      cases p
      rw [projections, ih, List.map_cons]

theorem orderItems_eq (items : List OrderItem) : orderItems items = items.map fun k =>
    atLevel Level.sum k.expr (expr k.expr) ++ gapThenWords k.direction.keyword?.toList := by
  induction items with
  | nil => rfl
  | cons k items ih =>
      cases k
      rw [orderItems, ih, List.map_cons]

theorem tableRefs_eq (tables : List TableRef) : tableRefs tables = tables.map tableRef := by
  induction tables with
  | nil => rfl
  | cons t tables ih => rw [tableRefs, ih, List.map_cons]

theorem namedQueries_eq (queries : List NamedQuery) : namedQueries queries = queries.map fun q =>
    name q.name :: (columnList q.columns ++ gap :: word .AS :: gap :: parens (statement q.query)) := by
  induction queries with
  | nil => rfl
  | cons q queries ih =>
      cases q
      rw [namedQueries, ih, List.map_cons]

private theorem name_denotes (t : String) : Denotes Grammar.name [⟨.identifier, t⟩] t [.name t] :=
  .symbol rfl (by simp) rfl (if_pos rfl)

private theorem names_denote {k : Kind} (isMark : Denotes.isMark k = true) {names : List String}
    (some_ : names ≠ []) :
    Denotes (Form.separated k Grammar.name)
      ([Symbol.mark k].intercalate (names.map fun t => [⟨.identifier, t⟩])) names (names.map .name) := by
  have all := Denotes.separated isMark names some_ fun t _ => name_denotes t
  rwa [← List.map_eq_flatMap] at all

private theorem path_denotes {names : List String} (some_ : names ≠ []) :
    Denotes Grammar.path (symbols (path names)) names (names.map .name) := by
  rw [symbols_path]
  exact names_denote rfl some_

private theorem nameAfterAs_denotes (t : String) :
    Denotes Grammar.nameAfterAs (symbols (aliasPart (some t))) t [.name t] := by
  rw [aliasPart, symbols_gap, symbols_word, symbols_gap, symbols_name]
  exact .left (.word_then .AS (name_denotes t))

private theorem alias_denotes (o : Option String) :
    Denotes (Form.optional Grammar.nameAfterAs) (symbols (aliasPart o)) o (o.toList.map .name) := by
  cases o with
  | none => exact .missing
  | some t => exact .optional (nameAfterAs_denotes t)

private theorem columns_denote (names : List String) :
    Denotes Grammar.columns (symbols (columnList names)) names (names.map .name) := by
  cases names with
  | nil => exact .right (.pure [])
  | cons t names =>
      rw [columnList, if_neg (by simp), symbols_gap, symbols_parens, symbols_commas, List.map_map]
      have same : symbols ∘ (fun c => [name c]) = fun c => [⟨.identifier, c⟩] :=
        funext fun c => by rw [Function.comp_apply, symbols_name, symbols_nil]
      rw [same]
      exact .left (.parens (names_denote rfl (by simp)))

private theorem column_denotes {names : List String} {wildcard : Bool} (shaped : names = [] → wildcard = true) :
    Denotes Grammar.column (symbols (columnRef names wildcard)) (.column names wildcard)
      (names.map .name) := by
  cases wildcard with
  | false => exact .right (.map (path_denotes fun none_ => Bool.noConfusion (shaped none_)))
  | true =>
      -- every name has a point after it, and the star comes after the last one
      have dotted : Denotes (Form.many (Grammar.name <* Form.mark .dot))
          (names.flatMap fun t => [⟨.identifier, t⟩, Symbol.mark .dot]) names (names.map .name) := by
        clear shaped
        induction names with
        | nil => exact .many_nil
        | cons t names ih =>
            have first := (name_denotes t).seqLeft (.mark (k := .dot) rfl)
            exact .many_cons first ih
      have pieces : symbols (columnRef names true) =
          (names.flatMap fun t => [⟨.identifier, t⟩, Symbol.mark .dot]) ++ [Symbol.mark .star] := by
        cases names with
        | nil => rfl
        | cons t names =>
            show symbols (path (t :: names) ++ [mark .dot, mark .star]) = _
            rw [symbols_append, symbols_mark, symbols_mark, symbols_nil]
            clear dotted shaped
            induction names generalizing t with
            | nil => simp [path]
            | cons t' names ih =>
                rw [path, symbols_name, symbols_mark, List.cons_append, List.cons_append, ih t']
                · rfl
                · simp
      have whole := (Denotes.map (f := fun names => Expr.column names true) dotted).seqLeft
        (.mark (k := .star) rfl)
      rw [List.append_nil] at whole
      rw [pieces]
      exact .left whole

private theorem value_word (k : Keyword) {l : Leaf} (other : l.position? = none) :
    Denotes (Form.word k) [Symbol.mark (.keyword k)] () [l] :=
  .symbol rfl (fun mark => by cases mark) (by simp [other]) (if_pos rfl)

private theorem call_denotes {names : List String} {inside : List Piece} {arguments : List Expr} {ls : List Leaf}
    (some_ : names ≠ []) (h : Denotes Grammar.arguments (symbols (parens inside)) arguments ls) :
    Denotes Grammar.call (symbols (functionName names ++ parens inside)) (.call names arguments)
      (names.map .name ++ ls) := by
  have function : Denotes (Grammar.path <|> (fun n => [n]) <$> Grammar.functionWord)
      (symbols (functionName names)) names (names.map .name) := by
    have plain := Denotes.left (H := (fun n => [n]) <$> Grammar.functionWord) (path_denotes some_)
    unfold functionName
    split
    · split
      · split
        · rename_i n _ k _ isFunction
          refine .right (.map (Denotes.symbol (s := ⟨.keyword k, n⟩) rfl (by simp) rfl ?_))
          exact if_pos (Grammar.mem_functionWords.mpr isFunction)
        · exact plain
      · exact plain
    · exact plain
  rw [symbols_append]
  exact .seq (.map function) h

section
variable {e : Expr} {pieces : List Piece} {w : Word} {ls : List Leaf}

private theorem parens_denotes (h : Denotes (tier (Level.ofExpr e)) (symbols pieces) e ls)
    (other : ∀ query, e ≠ .subquery query) :
    Denotes Grammar.primary (symbols (parens pieces)) e ls := by
  have condition : Denotes (Form.construct .condition) (symbols pieces) e ls :=
    .construct (h.lower (Nat.zero_le _))
  have alone : Denotes Grammar.conditions (symbols pieces) [e] ls := by
    have all := (Denotes.map (f := List.cons) condition).seq
      (.many_nil (F := Form.mark .comma *> Form.construct .condition))
    exact all.of_eq (List.append_nil _).symm (List.append_nil _).symm
  rw [symbols_parens]
  refine .right (.right (.right (.right (.right (.right (alone.conditions (f := Sum.elim _ Grammar.listed) ?_))))))
  rintro ⟨body, same⟩
  exact other _ (List.cons.inj same).1

private theorem atLevel_denotes (level : Level) (le : level ≤ Level.primary)
    (h : Denotes (tier (Level.ofExpr e)) (symbols pieces) e ls) :
    Denotes (tier level) (symbols (atLevel level e pieces)) e ls := by
  unfold atLevel parensIf
  split
  · rename_i loose
    have inside := parens_denotes h fun query same => by
      subst same
      exact Nat.not_lt.mpr le (of_decide_eq_true loose)
    exact Denotes.lower (k := Level.primary) le inside
  · rename_i tight
    exact h.lower (Nat.not_lt.mp fun loose => tight (decide_eq_true loose))

private theorem row_denotes (h : Denotes (tier (Level.ofExpr e)) (symbols pieces) e ls) :
    Denotes Form.row (symbols (atLevel Level.sum e pieces)) e ls :=
  .row (atLevel_denotes Level.sum (by decide) h)

private theorem signed_denotes (h : Denotes (tier (Level.ofExpr e)) (symbols pieces) e ls) :
    Denotes (Form.construct .signed) (symbols (signed e pieces)) e ls := by
  refine .construct ?_
  unfold signed
  split
  · exact parens_denotes h (by simp)
  · exact atLevel_denotes Level.primary (Nat.le_refl _) h

private theorem operand_then {u v : Word} {operand : Expr} {f : Expr → Expr} {l r : List Leaf}
    (first : Denotes Form.row u operand l)
    (last : Denotes (Grammar.comparisonEnd <|> Grammar.nullEnd <|> Grammar.betweenEnd <|> Grammar.inEnd <|>
      Grammar.likeEnd <|> pure id) v f r) :
    Denotes Grammar.predicate (u ++ v) (f operand) (l ++ r) :=
  .right (.seq (.map first) last)

private theorem binary_denotes {op : BinaryOp} {u v : Word} {left right : Expr} {l r : List Leaf}
    (first : Denotes (tier (Level.operands op).1) u left l)
    (second : Denotes (tier (Level.operands op).2) v right r) :
    Denotes (tier (Level.ofExpr (.binary op left right))) (u ++ Symbol.mark op.kind :: v)
      (.binary op left right) (l ++ r) := by
  have operator : ∀ {read : Kind → Option BinaryOp} {F : Form Expr}, read op.kind = some op →
      Denotes.isMark op.kind = true → Denotes F v right r →
      Denotes (Prod.mk <$> Form.oneOf read <*> F) (Symbol.mark op.kind :: v) (op, right) r :=
    fun value isMark second => (Denotes.map (f := Prod.mk) (.oneOf value isMark)).seq second
  have compare : Denotes Grammar.comparison [Symbol.mark op.kind] op [] → Denotes Form.row u left l →
      Denotes Form.row v right r →
      Denotes Grammar.predicate (u ++ Symbol.mark op.kind :: v) (.binary op left right) (l ++ r) := by
    intro operator first second
    have last : Denotes Grammar.comparisonEnd (Symbol.mark op.kind :: v)
        (fun left => .binary op left right) r :=
      .left ((Denotes.map (f := fun op right left => Expr.binary op left right) operator).seq second)
    exact operand_then (f := fun left => .binary op left right) first (.left last)
  cases op with
  | or => exact first.fold_snoc (operator rfl rfl second)
  | and => exact first.fold_snoc (operator rfl rfl second)
  | eq | notEq | lt | ltEq | gt | gtEq => exact compare (.oneOf rfl rfl) (.row first) (.row second)
  | add | sub | concat => exact first.fold_snoc (operator rfl rfl second)
  | mul | div | mod => exact first.fold_snoc (operator rfl rfl second)
  | pow => exact first.fold_snoc (operator rfl rfl second)

section
variable {u v x : Word} {operand : Expr} {l r m : List Leaf}

private theorem null_denotes (negated : Bool) (first : Denotes Form.row u operand l) :
    Denotes Grammar.predicate (u ++ Word.ofKeywords (.IS :: notPart negated ++ [.NULL]))
      (.is .null negated operand) l := by
  have words := (Denotes.flag .NOT negated).word_then .IS
  have last : Denotes Grammar.nullEnd _ (Expr.is .null negated) _ := (Denotes.map words).then_word .NULL
  exact (operand_then first (.right (.left last))).of_eq
    (by cases negated <;> rfl) (List.append_nil l).symm

private theorem truth_denotes {value : TruthValue} (negated : Bool)
    (isTruth : value ≠ .null)
    (first : Denotes Grammar.predicate u operand l) :
    Denotes Grammar.truthTest (u ++ Word.ofKeywords (.IS :: notPart negated ++ [value.keyword]))
      (.is value negated operand) l := by
  have words := (Denotes.flag .NOT negated).word_then .IS
  have truth : Denotes Grammar.truthValue [Symbol.mark (.keyword value.keyword)] value [] := by
    cases value with
    | null => exact absurd rfl isTruth
    | true | false | unknown => exact .oneOf rfl rfl
  have last := (Denotes.map (f := fun negated value => Expr.is value negated) words).seq truth
  have all : Denotes Grammar.truthTest _ _ _ :=
    .seq (.map (f := fun operand (f : Expr → Expr) => f operand) first) (.left last)
  exact all.of_eq (by cases negated <;> rfl) (List.append_nil l).symm

private theorem between_denotes (negated : Bool) {low high : Expr} (first : Denotes Form.row u operand l)
    (second : Denotes Form.row v low r) (third : Denotes Form.row x high m) :
    Denotes Grammar.predicate (u ++ Word.ofKeywords (notPart negated ++ [.BETWEEN]) ++
        (v ++ Symbol.mark (.keyword .AND) :: x)) (.between negated operand low high) (l ++ r ++ m) := by
  have last : Denotes Grammar.betweenEnd _ (fun operand => Expr.between negated operand low high) _ :=
    .seq (.seq (.map (.flag .NOT negated)) (.word_then .BETWEEN second)) (.word_then .AND third)
  exact (operand_then first (.right (.right (.left last)))).of_eq
    (by cases negated <;> simp [notPart, Word.ofKeywords]) (by simp)

private theorem inQuery_denotes (negated : Bool) {query : Statement} (first : Denotes Form.row u operand l)
    (second : Denotes (Form.construct .query) v query r) :
    Denotes Grammar.predicate (u ++ Word.ofKeywords (notPart negated ++ [.IN]) ++
        Symbol.mark .leftParen :: (v ++ [Symbol.mark .rightParen])) (.inQuery negated operand query) (l ++ r) := by
  have inside := second.preferred (H := Grammar.conditions) (f := id)
  have last : Denotes Grammar.inEnd _ (fun operand => Expr.inQuery negated operand query) _ :=
    .seq (.map (.flag .NOT negated)) (.word_then .IN inside)
  exact (operand_then first (.right (.right (.right (.left last))))).of_eq
    (by cases negated <;> simp [notPart, Word.ofKeywords]) (by simp)

private theorem inValues_denotes (negated : Bool) {values : List Expr} (first : Denotes Form.row u operand l)
    (second : Denotes Grammar.conditions v values r) (other : Expr.AreValues values) :
    Denotes Grammar.predicate (u ++ Word.ofKeywords (notPart negated ++ [.IN]) ++
        Symbol.mark .leftParen :: (v ++ [Symbol.mark .rightParen])) (.inValues negated operand values) (l ++ r) := by
  have inside := second.conditions (f := id) other.2
  have last : Denotes Grammar.inEnd _ (fun operand => Expr.inValues negated operand values) _ :=
    .seq (.map (.flag .NOT negated)) (.word_then .IN inside)
  exact (operand_then first (.right (.right (.right (.left last))))).of_eq
    (by cases negated <;> simp [notPart, Word.ofKeywords]) (by simp)

private theorem like_denotes (negated : Bool) {pattern : Expr} {escape : Option Expr}
    (first : Denotes Form.row u operand l) (second : Denotes Form.row v pattern r)
    (third : Denotes (Form.optional (Form.word .ESCAPE *> Form.row)) x escape m) :
    Denotes Grammar.predicate (u ++ Word.ofKeywords (notPart negated ++ [.LIKE]) ++ (v ++ x))
      (.like negated operand pattern escape) (l ++ r ++ m) := by
  have last : Denotes Grammar.likeEnd _ (fun operand => Expr.like negated operand pattern escape) _ :=
    .seq (.seq (.map (.flag .NOT negated)) (.word_then .LIKE second)) third
  exact (operand_then first (.right (.right (.right (.right (.left last)))))).of_eq
    (by cases negated <;> simp [notPart, Word.ofKeywords]) (by simp)

private theorem quantified_denotes {op : BinaryOp} (compares : op.isComparison = true) (quantifier : Quantifier)
    {query : Statement} (first : Denotes Form.row u operand l)
    (second : Denotes (Form.construct .query) v query r) :
    Denotes Grammar.predicate (u ++ Symbol.mark op.kind :: Symbol.mark (.keyword quantifier.keyword) ::
        Symbol.mark .leftParen :: (v ++ [Symbol.mark .rightParen]))
      (.quantified op quantifier operand query) (l ++ r) := by
  have operator : Denotes Grammar.comparison [Symbol.mark op.kind] op [] := by
    cases op <;> first | exact .oneOf rfl rfl | cases compares
  have quantity : Denotes Grammar.quantifier [Symbol.mark (.keyword quantifier.keyword)] quantifier [] := by
    cases quantifier <;> exact .oneOf rfl rfl
  have last : Denotes Grammar.comparisonEnd _ (fun left => Expr.quantified op quantifier left query) _ :=
    .right (((Denotes.map (f := fun op quantifier query left => Expr.quantified op quantifier left query)
      operator).seq quantity).seq second.parens)
  exact (operand_then first (.left last)).of_eq (by simp) (by simp)

end

end

private abbrev Stands (e : Expr) : Prop := Denotes (tier (Level.ofExpr e)) (symbols (expr e)) e e.leaves

private abbrev StandsQuery (q : Statement) : Prop :=
  Denotes (Form.construct .query) (symbols (statement q)) q q.leaves

private theorem Stands.condition {e : Expr} (h : Stands e) :
    Denotes (Form.construct .condition) (symbols (expr e)) e e.leaves :=
  .construct (h.lower (Nat.zero_le _))

private theorem conditions_denote {es : List Expr} (some_ : es ≠ []) (h : ∀ e ∈ es, Stands e) :
    Denotes Grammar.conditions (symbols (commas (exprs es))) es (Expr.leavesList es) := by
  have all := Denotes.separated (k := .comma) rfl _ some_ fun e mem => (h e mem).condition
  exact all.of_eq (by rw [symbols_commas, exprs_eq, List.map_map]; rfl) (Expr.leavesList_eq es)

private theorem arguments_denote {es : List Expr} (h : ∀ e ∈ es, Stands e) :
    Denotes Grammar.arguments (symbols (parens (commas (exprs es)))) es (Expr.leavesList es) := by
  rw [symbols_parens]
  cases es with
  | nil => exact .parens (.right (.pure []))
  | cons e es => exact .parens (.left (conditions_denote (by simp) h))

private theorem condition_after (k : Keyword) {o : Option Expr} (h : ∀ e ∈ o, Stands e) :
    Denotes (Form.optional (Form.word k *> Form.construct .condition)) (symbols (conditionPart k o)) o
      (Expr.leavesOption o) := by
  cases o with
  | none => exact .missing
  | some e =>
      rw [conditionPart, symbols_gap, symbols_word, symbols_gap]
      exact .optional (.word_then k (h e rfl).condition)

private theorem elsePart_eq (o : Option Expr) : elsePart o = conditionPart .ELSE o := by
  cases o <;> rfl

private theorem escape_denotes {o : Option Expr} (h : ∀ e ∈ o, Stands e) :
    Denotes (Form.optional (Form.word .ESCAPE *> Form.row)) (symbols (escapePart o)) o
      (Expr.leavesOption o) := by
  cases o with
  | none => exact .missing
  | some e =>
      rw [escapePart, symbols_gap, symbols_word, symbols_gap]
      exact .optional (.word_then .ESCAPE (row_denotes (h e rfl)))

private theorem case_denotes {operand otherwise : Option Expr} {branches : List (Expr × Expr)}
    (some_ : branches ≠ []) (first : ∀ e ∈ operand, Stands e)
    (second : ∀ b ∈ branches, Stands b.1 ∧ Stands b.2) (third : ∀ e ∈ otherwise, Stands e) :
    Denotes Grammar.case (symbols (expr (.case operand branches otherwise)))
      (.case operand branches otherwise) (Expr.case operand branches otherwise).leaves := by
  have start : Denotes (Form.optional Form.row) (symbols (operandPart operand)) operand
      (Expr.leavesOption operand) := by
    cases operand with
    | none => exact .missing
    | some e =>
        rw [operandPart, symbols_gap]
        exact .optional (row_denotes (first e rfl))
  have branch : ∀ b ∈ branches, Denotes Grammar.case.branch
      (Symbol.mark (.keyword .WHEN) :: symbols (expr b.1) ++ Symbol.mark (.keyword .THEN) :: symbols (expr b.2))
      b (b.1.leaves ++ b.2.leaves) := fun b mem =>
    .seq (.map (.word_then .WHEN (second b mem).1.condition)) (.word_then .THEN (second b mem).2.condition)
  have parts : ∀ bs : List (Expr × Expr), symbols (branchParts bs) = bs.flatMap fun b =>
      Symbol.mark (.keyword .WHEN) :: symbols (expr b.1) ++
        Symbol.mark (.keyword .THEN) :: symbols (expr b.2) := by
    intro bs
    induction bs with
    | nil => rfl
    | cons b bs ih =>
        obtain ⟨c, e⟩ := b
        simp [branchParts, ih]
  have many : ∀ bs : List (Expr × Expr), (∀ b ∈ bs, b ∈ branches) →
      Denotes (Form.many Grammar.case.branch) (symbols (branchParts bs)) bs (Expr.leavesBranches bs) := by
    intro bs among
    rw [parts, Expr.leavesBranches_eq]
    induction bs with
    | nil => exact .many_nil
    | cons b bs ih =>
        obtain ⟨mem, others⟩ := List.forall_mem_cons.mp among
        exact .many_cons (branch b mem) (ih others)
  have last := condition_after .ELSE third
  match branches, some_ with
  | b :: rest, _ =>
      have all := (((Denotes.map (f := fun operand first rest otherwise => Expr.case operand (first :: rest) otherwise)
        (start.word_then .CASE)).seq (branch b (by simp))).seq
        (many rest fun b mem => List.mem_cons_of_mem _ mem)).seq last
      refine (all.then_word .END).of_eq ?_ ?_
      · rw [expr, elsePart_eq]
        simp [parts]
      · simp [Expr.leaves, Expr.leavesBranches_eq]

private theorem side_denotes (side : JoinSide) :
    Denotes Grammar.joinSide (Word.ofKeywords side.words) side [] := by
  have outer : ∀ (k : Keyword) (f : Bool → JoinSide) (outer : Bool),
      Denotes (f <$> (Form.word k *> Form.flag .OUTER))
        (Word.ofKeywords (k :: JoinSide.outerWords outer)) (f outer) [] :=
    fun k f outer => .map (.word_then k (.flag .OUTER outer))
  cases side with
  | plain => exact .right (.right (.right (.right (.pure _))))
  | inner => exact .left (.map (.word .INNER))
  | left o => exact .right (.left (outer .LEFT .left o))
  | right o => exact .right (.right (.left (outer .RIGHT .right o)))
  | full o => exact .right (.right (.right (.left (outer .FULL .full o))))

private theorem join_denotes {kind : JoinKind} {right : TableRef} {condition : Option Expr} {v : Word}
    {r : List Leaf} (requires : condition.isSome = kind.requiresCondition)
    (second : Denotes Grammar.tablePrimary v right r) (third : ∀ e ∈ condition, Stands e) :
    Denotes Grammar.joinEnd (Word.ofKeywords kind.words ++ (v ++ symbols (conditionPart .ON condition)))
      (kind, right, condition) (r ++ Expr.leavesOption condition) := by
  cases condition with
  | none =>
      have words : Denotes Grammar.plainJoin (Word.ofKeywords kind.words) kind [] := by
        cases kind with
        | cross => exact .left (.map (.word_then .CROSS (.word .JOIN)))
        | sided natural side =>
            cases natural with
            | false => cases requires
            | true =>
                refine .right (((Denotes.map (f := JoinKind.sided true)
                  (.word_then .NATURAL (side_denotes side))).then_word .JOIN).of_eq ?_ rfl)
                simp [JoinKind.words, Word.ofKeywords]
      have all := (Denotes.map (f := fun kind right => (kind, right, (none : Option Expr))) words).seq second
      exact .right (all.of_eq (by simp [conditionPart]) (by simp [Expr.leavesOption]))
  | some e =>
      have words : Denotes Grammar.conditionedJoin (Word.ofKeywords kind.words) kind [] := by
        cases kind with
        | cross => cases requires
        | sided natural side =>
            cases natural with
            | true => cases requires
            | false =>
                refine ((Denotes.map (f := JoinKind.sided false) (side_denotes side)).then_word .JOIN).of_eq
                  ?_ rfl
                simp [JoinKind.words, Word.ofKeywords]
      have all := ((Denotes.map (f := fun kind right on => (kind, right, some on)) words).seq second).seq
        ((third e rfl).condition.word_then .ON)
      exact .left (all.of_eq (by simp [conditionPart]) (by simp [Expr.leavesOption]))

/-- The pieces of a table reference stand for it, also as the right side of a join. -/
private abbrev StandsTable (t : TableRef) : Prop :=
  Denotes Grammar.table (symbols (tableRef t)) t t.leaves ∧
    Denotes Grammar.tablePrimary (symbols (joined t (tableRef t))) t t.leaves

private theorem table_of_primary {t : TableRef} (plain : joined t (tableRef t) = tableRef t)
    (h : Denotes Grammar.tablePrimary (symbols (tableRef t)) t t.leaves) : StandsTable t :=
  ⟨.fold_single h, by rwa [plain]⟩

private theorem quantifier_denotes (quantifier : SetQuantifier) :
    Denotes Grammar.setQuantifier (Word.ofKeywords quantifier.keyword?.toList) quantifier [] := by
  cases quantifier with
  | unspecified => exact .right (.pure _)
  | all => exact .left (.oneOf rfl rfl)
  | distinct => exact .left (.oneOf rfl rfl)

private theorem projection_denotes {p : Projection} (h : Stands p.expr) :
    Denotes Grammar.projection (symbols (atLevel Level.sum p.expr (expr p.expr) ++ aliasPart p.aliasName)) p
      p.leaves := by
  obtain ⟨e, aliasName⟩ := p
  rw [symbols_append]
  exact .seq (.map (f := Projection.mk) (row_denotes h)) (alias_denotes aliasName)

private theorem orderItem_denotes {k : OrderItem} (h : Stands k.expr) :
    Denotes Grammar.orderItem
      (symbols (atLevel Level.sum k.expr (expr k.expr) ++ gapThenWords k.direction.keyword?.toList)) k
      k.expr.leaves := by
  obtain ⟨e, direction⟩ := k
  have last : Denotes Grammar.direction (Word.ofKeywords direction.keyword?.toList) direction [] := by
    cases direction with
    | unspecified => exact .right (.pure _)
    | asc => exact .left (.oneOf rfl rfl)
    | desc => exact .left (.oneOf rfl rfl)
  rw [symbols_append, symbols_gapThenWords]
  exact (Denotes.seq (.map (f := OrderItem.mk) (row_denotes h)) last).of_eq rfl (List.append_nil _).symm

private theorem orderBy_denotes {items : List OrderItem} (h : ∀ k ∈ items, Stands k.expr) :
    Denotes Grammar.orderBy (symbols (orderPart items)) items (OrderItem.leavesList items) := by
  cases items with
  | nil => exact .right (.pure [])
  | cons k items =>
      have all := Denotes.separated (k := .comma) rfl (k :: items) (by simp) fun k mem =>
        orderItem_denotes (h k mem)
      have words := ((Denotes.word .ORDER).seqRight (.word .BY)).seqRight all
      refine .left (words.of_eq ?_ (OrderItem.leavesList_eq _))
      cases k
      rw [orderPart, ← orderItems, orderItems_eq]
      simp [List.map_map, Function.comp_def]

private theorem tables_denote {tables : List TableRef} (h : ∀ t ∈ tables, StandsTable t) :
    Denotes Grammar.tables (symbols (fromPart tables)) tables (TableRef.leavesList tables) := by
  cases tables with
  | nil => exact .right (.pure [])
  | cons t tables =>
      have entries := Denotes.separated (k := .comma) (F := Form.construct .table) rfl (t :: tables)
        (by simp) fun t mem => .construct (h t mem).1
      refine .left ((entries.word_then .FROM).of_eq ?_ (TableRef.leavesList_eq _))
      rw [fromPart, ← tableRefs, tableRefs_eq]
      simp [List.map_map, Function.comp_def]

private theorem grouping_denotes {o : Option Grouping}
    (h : ∀ g ∈ o, g.items ≠ [] ∧ ∀ e ∈ g.items, Stands e) :
    Denotes (Form.optional Grammar.grouping) (symbols (groupingPart o)) o (Grouping.leavesOption o) := by
  cases o with
  | none => exact .missing
  | some g =>
      obtain ⟨quantifier, items⟩ := g
      obtain ⟨some_, each⟩ := h _ rfl
      have entries := Denotes.separated (k := .comma) rfl _ some_ fun e mem => row_denotes (each e mem)
      have words := ((Denotes.word .GROUP).seqRight (.word .BY)).seqRight (quantifier_denotes quantifier)
      refine .optional ((Denotes.seq (.map (f := Grouping.mk) words) entries).of_eq ?_ ?_)
      · rw [groupingPart, rows_eq]
        simp [List.map_map, Function.comp_def]
      · simp [Grouping.leavesOption, Expr.leavesList_eq]

private theorem selectBlock_denotes (quantifier : SetQuantifier) {ps : List Projection}
    {tables : List TableRef} {filter : Option Expr} {group : Option Grouping} {having : Option Expr}
    (some_ : ps ≠ []) (first : ∀ p ∈ ps, Stands p.expr) (second : ∀ t ∈ tables, StandsTable t)
    (third : ∀ e ∈ filter, Stands e) (fourth : ∀ g ∈ group, g.items ≠ [] ∧ ∀ e ∈ g.items, Stands e)
    (fifth : ∀ e ∈ having, Stands e) :
    Denotes Grammar.selectBlock (symbols (selectBlock ⟨quantifier, ps, tables, filter, group, having⟩))
      ⟨quantifier, ps, tables, filter, group, having⟩
      (SelectBlock.leaves ⟨quantifier, ps, tables, filter, group, having⟩) := by
  have entries := Denotes.separated (k := .comma) rfl _ some_ fun p mem => projection_denotes (first p mem)
  have all := (((((Denotes.map (f := SelectBlock.mk) ((quantifier_denotes quantifier).word_then .SELECT)).seq
    entries).seq (tables_denote second)).seq (condition_after .WHERE third)).seq
    (grouping_denotes fourth)).seq (condition_after .HAVING fifth)
  refine all.of_eq ?_ ?_
  · rw [selectBlock, projections_eq]
    simp [List.map_map, Function.comp_def]
  · simp [SelectBlock.leaves, Projection.leavesList_eq]

private def bodyTier : Level → Form Body
  | 0 | 1 => Grammar.body
  | 2 => Grammar.term
  | _ => Grammar.bodyPrimary

private abbrev StandsBody (b : Body) : Prop :=
  Denotes (bodyTier (Level.ofBody b)) (symbols (body b)) b b.leaves

private theorem bodyTier_lower {j k : Level} (le : j ≤ k) {b : Body} {w : Word} {ls : List Leaf}
    (h : Denotes (bodyTier k) w b ls) : Denotes (bodyTier j) w b ls := by
  induction le with
  | refl => exact h
  | @step k _ ih =>
      refine ih ?_
      match k, h with
      | 0, h => exact h
      | 1, h => exact .fold_single h
      | 2, h => exact .fold_single h
      | _ + 3, h => exact h

private theorem StandsBody.construct {b : Body} (h : StandsBody b) :
    Denotes (Form.construct .body) (symbols (body b)) b b.leaves :=
  .construct (bodyTier_lower (Nat.zero_le _) h)

private theorem bodyAtLevel_denotes {b : Body} (h : StandsBody b) (level : Level) :
    Denotes (bodyTier level) (symbols (bodyAtLevel level b (body b))) b b.leaves := by
  unfold bodyAtLevel parensIf
  split
  · rw [symbols_parens]
    have inside : Denotes Grammar.bodyPrimary _ b b.leaves := .right (.parens h.construct)
    have tight := bodyTier_lower (j := level) (k := level + 3) (Nat.le_add_right ..) (b := b)
      (show Denotes (bodyTier (level + 3)) _ b b.leaves from inside)
    exact tight
  · rename_i tight
    exact bodyTier_lower (Nat.not_lt.mp fun loose => tight (decide_eq_true loose)) h

private theorem setOp_denotes {op : SetOp} {quantifier : SetQuantifier} {left right : Body}
    (first : StandsBody left) (second : StandsBody right) : StandsBody (.setOp op quantifier left right) := by
  have next : ∀ {read : Kind → Option SetOp} {F : Form Body} {v : Word},
      read (.keyword op.keyword) = some op → Denotes F v right right.leaves →
      Denotes ((fun op quantifier right => (op, quantifier, right)) <$> Form.oneOf read <*>
        Grammar.setQuantifier <*> F) (Symbol.mark (.keyword op.keyword) ::
          Word.ofKeywords quantifier.keyword?.toList ++ v) (op, quantifier, right) right.leaves :=
    fun value last => .seq (.seq (.map (.oneOf value rfl)) (quantifier_denotes quantifier)) last
  have front := bodyAtLevel_denotes first
  have back := bodyAtLevel_denotes second
  cases op with
  | intersect =>
      exact ((front 2).fold_snoc (next rfl (back 3))).of_eq
        (by rw [body]; simp [Level.ofBody, Word.ofKeywords, SetOp.keyword]) (by rw [Body.leaves])
  | union | except =>
      exact ((front 1).fold_snoc (next rfl (back 2))).of_eq
        (by rw [body]; simp [Level.ofBody, Word.ofKeywords, SetOp.keyword]) (by rw [Body.leaves])

private theorem withPart_denotes {o : Option WithClause}
    (h : ∀ c ∈ o, c.queries ≠ [] ∧ ∀ q ∈ c.queries, StandsQuery q.query) :
    Denotes (Form.optional Grammar.withClause) (symbols (withPart o)) o (WithClause.leavesOption o) := by
  cases o with
  | none => exact .missing
  | some c =>
      obtain ⟨recursive, queries⟩ := c
      obtain ⟨some_, each⟩ := h _ rfl
      have named : ∀ q ∈ queries, Denotes Grammar.namedQuery (symbols (name q.name :: (columnList q.columns ++
          gap :: word .AS :: gap :: parens (statement q.query)))) q q.leaves := by
        intro q mem
        obtain ⟨n, columns, query⟩ := q
        have all := ((Denotes.map (f := NamedQuery.mk) (name_denotes n)).seq (columns_denote columns)).seq
          ((each _ mem).parens.word_then .AS)
        exact all.of_eq (by simp) (by simp [NamedQuery.leaves])
      have entries := Denotes.separated (k := .comma) rfl _ some_ named
      have words := (Denotes.flag .RECURSIVE recursive).word_then .WITH
      refine .optional ((Denotes.seq (.map (f := WithClause.mk) words) entries).of_eq ?_ ?_)
      · rw [withPart, namedQueries_eq]
        simp [List.map_map, Function.comp_def]
      · simp [WithClause.leavesOption, NamedQuery.leavesList_eq]

private theorem query_denotes {clause : Option WithClause} {b : Body} {items : List OrderItem}
    (first : ∀ c ∈ clause, c.queries ≠ [] ∧ ∀ q ∈ c.queries, StandsQuery q.query) (second : StandsBody b)
    (third : ∀ k ∈ items, Stands k.expr) : StandsQuery ⟨clause, b, items⟩ := by
  have middle : Denotes Grammar.body (symbols (body b)) b b.leaves :=
    ⟨second.construct.1, fun n numbered => Grammar.Derives.construct_iff.mp (second.construct.2 n numbered)⟩
  have all := ((Denotes.map (f := Statement.mk) (withPart_denotes first)).seq middle).seq
    (orderBy_denotes third)
  exact .construct (all.of_eq (by rw [statement, symbols_append, symbols_append]) (by rw [Statement.leaves]))

mutual

/-- The pieces of an expression of the right shape stand for it. -/
theorem expr_stands (e : Expr) (h : e.Shaped Expr.AreValues) :
    Denotes (tier (Level.ofExpr e)) (symbols (expr e)) e e.leaves := by
  cases e with
  | binary op left right =>
      have operand : (Level.operands op).1 ≤ Level.primary ∧ (Level.operands op).2 ≤ Level.primary := by
        cases op <;> decide
      rw [expr, symbols_append, symbols_gap, symbols_mark, symbols_gap, Expr.leaves]
      exact binary_denotes (atLevel_denotes _ operand.1 (expr_stands left h.1))
        (atLevel_denotes _ operand.2 (expr_stands right h.2))
  | unary op operand =>
      have inside := expr_stands operand h
      have sign : ∀ {k : Kind}, Denotes.isMark k = true → Denotes
          (Expr.unary op <$> (Form.mark k *> Form.construct .signed))
          (Symbol.mark k :: symbols (signed operand (expr operand))) (Expr.unary op operand) operand.leaves :=
        fun isMark => .map ((signed_denotes inside).after isMark)
      rw [Expr.leaves]
      cases op with
      | not =>
          have under := atLevel_denotes Level.negation (by decide) inside
          rw [expr, symbols_word, symbols_gap]
          exact .left (.map (.word_then .NOT (.construct under)))
      | plus => exact .right (.right (.left (.left (sign rfl))))
      | neg => exact .right (.right (.left (.right (sign rfl))))
  | is value negated operand =>
      have inside := expr_stands operand h
      have tested := atLevel_denotes Level.predicate (by decide) inside
      rw [expr, symbols_append, symbols_gapThenWords, Expr.leaves]
      cases value with
      | null => exact null_denotes negated (row_denotes inside)
      | true | false | unknown => exact truth_denotes negated (by simp) tested
  | quantified op quantifier left query =>
      rw [expr, Expr.leaves]
      have all := quantified_denotes h.1 quantifier (row_denotes (expr_stands left h.2.1))
        (statement_stands query h.2.2)
      exact all.of_eq (by simp) rfl
  | between negated operand low high =>
      rw [expr, Expr.leaves]
      have all := between_denotes negated (row_denotes (expr_stands operand h.1))
        (row_denotes (expr_stands low h.2.1)) (row_denotes (expr_stands high h.2.2))
      exact all.of_eq (by simp) rfl
  | inQuery negated operand query =>
      rw [expr, Expr.leaves]
      have all := inQuery_denotes negated (row_denotes (expr_stands operand h.1)) (statement_stands query h.2)
      exact all.of_eq (by simp) rfl
  | inValues negated operand values =>
      rw [expr, Expr.leaves]
      have all := inValues_denotes negated (row_denotes (expr_stands operand h.2.1))
        (conditions_denote h.1.1 (exprs_stand values h.2.2)) h.1
      exact all.of_eq (by simp) rfl
  | like negated operand pattern escape =>
      rw [expr, Expr.leaves]
      have all := like_denotes negated (row_denotes (expr_stands operand h.1))
        (row_denotes (expr_stands pattern h.2.1)) (escape_denotes (option_stands escape h.2.2))
      exact all.of_eq (by simp) rfl
  | existsQuery query =>
      rw [expr, symbols_word, symbols_gap, symbols_parens, Expr.leaves]
      exact .left (.map (.word_then .EXISTS (statement_stands query h).parens))
  | bool value =>
      cases value with
      | true => exact .left (.right (.right (.left (.map (value_word .TRUE rfl)))))
      | false => exact .left (.right (.right (.right (.left (.map (value_word .FALSE rfl))))))
  | null => exact .left (.right (.right (.right (.right (.map (value_word .NULL rfl))))))
  | number text => exact .left (.left (.map (.symbol (s := ⟨.number, text⟩) rfl (by simp) rfl (if_pos rfl))))
  | string value =>
      rw [expr, symbols_lexeme, Symbol.ofText_string, symbols_nil, Expr.leaves]
      exact .left (.right (.left (.map (.symbol rfl (by simp) rfl (if_pos rfl)))))
  | parameter position =>
      refine .right (.left ⟨rfl, fun n numbered => ?_⟩)
      obtain rfl : position = n + 1 := List.head_eq_of_cons_eq numbered
      exact .parameter
  | column names wildcard =>
      rw [expr, Expr.leaves]
      exact .right (.right (.right (.right (.left (column_denotes h)))))
  | call names arguments =>
      rw [expr, Expr.leaves]
      exact .right (.right (.right (.right (.right (.left
        (call_denotes h.1 (arguments_denote (exprs_stand arguments h.2))))))))
  | list items =>
      rw [expr, symbols_parens, Expr.leaves]
      obtain ⟨two, each⟩ := h
      match items, two with
      | first :: second :: rest, _ =>
          have inside := conditions_denote (by simp) (exprs_stand (first :: second :: rest) each)
          have all := inside.conditions (f := Sum.elim .subquery Grammar.listed) (by simp)
          exact .right (.right (.right (.right (.right (.right all)))))
  | subquery query =>
      rw [expr, symbols_parens, Expr.leaves]
      have all := (statement_stands query h).preferred (H := Grammar.conditions) (f := Sum.elim .subquery Grammar.listed)
      exact .right (.right (.right (.right (.right (.right all)))))
  | case operand branches otherwise =>
      have all := case_denotes h.1 (option_stands operand h.2.1) (branches_stand branches h.2.2.1)
        (option_stands otherwise h.2.2.2)
      exact .right (.right (.right (.left all)))

private theorem exprs_stand (es : List Expr) (h : Expr.ShapedList Expr.AreValues es) :
    ∀ e ∈ es, Stands e := by
  cases es with
  | nil => simp
  | cons e es => exact List.forall_mem_cons.mpr ⟨expr_stands e h.1, exprs_stand es h.2⟩

private theorem option_stands (o : Option Expr) (h : Expr.ShapedOption Expr.AreValues o) :
    ∀ e ∈ o, Stands e := by
  cases o with
  | none => simp
  | some e =>
      rintro _ ⟨⟩
      exact expr_stands e h

private theorem branches_stand (branches : List (Expr × Expr))
    (h : Expr.ShapedBranches Expr.AreValues branches) : ∀ b ∈ branches, Stands b.1 ∧ Stands b.2 := by
  match branches with
  | [] => simp
  | (condition, result) :: rest =>
      exact List.forall_mem_cons.mpr
        ⟨⟨expr_stands condition h.1, expr_stands result h.2.1⟩, branches_stand rest h.2.2⟩

private theorem projections_stand (ps : List Projection) (h : Projection.ShapedList Expr.AreValues ps) :
    ∀ p ∈ ps, Stands p.expr := by
  match ps with
  | [] => simp
  | ⟨e, _⟩ :: rest => exact List.forall_mem_cons.mpr ⟨expr_stands e h.1, projections_stand rest h.2⟩

private theorem orderItems_stand (items : List OrderItem) (h : OrderItem.ShapedList Expr.AreValues items) :
    ∀ k ∈ items, Stands k.expr := by
  match items with
  | [] => simp
  | ⟨e, _⟩ :: rest => exact List.forall_mem_cons.mpr ⟨expr_stands e h.1, orderItems_stand rest h.2⟩

private theorem grouping_stands (o : Option Grouping) (h : Grouping.ShapedOption Expr.AreValues o) :
    ∀ g ∈ o, g.items ≠ [] ∧ ∀ e ∈ g.items, Stands e := by
  match o with
  | none => simp
  | some ⟨_, items⟩ =>
      rintro _ ⟨⟩
      exact ⟨h.1, exprs_stand items h.2⟩

private theorem tableRef_stands (t : TableRef) (h : t.Shaped Expr.AreValues) : StandsTable t := by
  cases t with
  | relation names aliasName =>
      refine table_of_primary rfl ?_
      rw [tableRef, symbols_append, TableRef.leaves]
      exact .left (.seq (.map (f := TableRef.relation) (path_denotes h)) (alias_denotes aliasName))
  | derived query aliasName columns =>
      refine table_of_primary rfl ?_
      rw [tableRef, symbols_append, symbols_append, symbols_parens, TableRef.leaves]
      have all := ((Denotes.map (f := TableRef.derived) (statement_stands query h).parens).seq
        (nameAfterAs_denotes aliasName)).seq (columns_denote columns)
      exact .right (.left (all.of_eq rfl (by simp)))
  | join kind left right condition =>
      have whole : Denotes Grammar.table (symbols (tableRef (.join kind left right condition)))
          (.join kind left right condition) (TableRef.join kind left right condition).leaves := by
        have last := join_denotes h.1 (tableRef_stands right h.2.2.1).2 (option_stands condition h.2.2.2)
        exact ((tableRef_stands left h.2.1).1.fold_snoc last).of_eq (by simp [tableRef])
          (by simp [TableRef.leaves])
      refine ⟨whole, ?_⟩
      show Denotes Grammar.tablePrimary (symbols (parens _)) _ _
      rw [symbols_parens]
      exact .right (.right (.parens (.construct whole)))

private theorem tableRefs_stand (tables : List TableRef) (h : TableRef.ShapedList Expr.AreValues tables) :
    ∀ t ∈ tables, StandsTable t := by
  cases tables with
  | nil => simp
  | cons t rest => exact List.forall_mem_cons.mpr ⟨tableRef_stands t h.1, tableRefs_stand rest h.2⟩

private theorem body_stands (b : Body) (h : b.Shaped Expr.AreValues) : StandsBody b := by
  match b with
  | .setOp op quantifier left right => exact setOp_denotes (body_stands left h.1) (body_stands right h.2)
  | .block ⟨quantifier, ps, tables, filter, group, having⟩ =>
      have all := selectBlock_denotes quantifier h.1 (projections_stand ps h.2.1)
        (tableRefs_stand tables h.2.2.1) (option_stands filter h.2.2.2.1) (grouping_stands group h.2.2.2.2.1)
        (option_stands having h.2.2.2.2.2)
      exact .left ((Denotes.map (f := Body.block) all).of_eq rfl (by rw [Body.leaves]))

private theorem namedQueries_stand (queries : List NamedQuery)
    (h : NamedQuery.ShapedList Expr.AreValues queries) : ∀ q ∈ queries, StandsQuery q.query := by
  match queries with
  | [] => simp
  | ⟨_, _, query⟩ :: rest =>
      exact List.forall_mem_cons.mpr ⟨statement_stands query h.1, namedQueries_stand rest h.2⟩

private theorem withClause_stands (o : Option WithClause) (h : WithClause.ShapedOption Expr.AreValues o) :
    ∀ c ∈ o, c.queries ≠ [] ∧ ∀ q ∈ c.queries, StandsQuery q.query := by
  match o with
  | none => simp
  | some ⟨_, queries⟩ =>
      rintro _ ⟨⟩
      exact ⟨h.1, namedQueries_stand queries h.2⟩

theorem statement_stands (q : Statement) (h : q.Shaped Expr.AreValues) :
    Denotes (Form.construct .query) (symbols (statement q)) q q.leaves := by
  match q with
  | ⟨clause, b, items⟩ =>
      exact query_denotes (withClause_stands clause h.1) (body_stands b h.2.1) (orderItems_stand items h.2.2)

end

end SelectSyntax.Render
