import SelectSyntax.Proofs.Spelling

/-!
Every written tree is scanned back into the lexemes of its pieces: two pieces that would run into each
other have a space or a mark between them.
-/

set_option autoImplicit false
set_option relaxedAutoImplicit false

namespace SelectSyntax

open Text.CharClass (isWordChar isWordStart)
open Token (Kind Keyword)
open SyntaxTree

namespace Lexeme

/-- The marks that no character after them can change. -/
def lone : List (Char × Kind) :=
  [('(', .leftParen), (')', .rightParen), (',', .comma), ('?', .question), ('*', .star), ('+', .plus)]

theorem readsAs_lone {c : Char} {kind : Kind} (mem : (c, kind) ∈ lone) (rest : List Char) :
    ReadsAs kind [c] rest := by
  simp only [lone, List.mem_cons, Prod.mk.injEq, List.not_mem_nil, or_false] at mem
  rcases mem with ⟨rfl, rfl⟩ | ⟨rfl, rfl⟩ | ⟨rfl, rfl⟩ | ⟨rfl, rfl⟩ | ⟨rfl, rfl⟩ | ⟨rfl, rfl⟩
  all_goals
    refine ⟨Trivia.split_eq_nil rfl (by simp) (by simp), ?_⟩
    cases rest <;> rfl

theorem readsAs_minus {rest : List Char} (stops : Stops (· == '-') rest) : ReadsAs .minus ['-'] rest := by
  refine ⟨Trivia.split_eq_nil rfl (fun _ => stops) (by simp), ?_⟩
  cases rest <;> rfl

/-- The characters that a point is read in front of. -/
def opensName (c : Char) : Bool := isWordStart c || c == '"' || c == '[' || c == '*'

theorem readsAs_dot {c : Char} {rest : List Char} (name : opensName c = true) :
    ReadsAs .dot ['.'] (c :: rest) := by
  refine ⟨Trivia.split_eq_nil rfl (by simp) (by simp), ?_⟩
  have digit : c.isDigit = false := by
    cases digit : c.isDigit with
    | false => rfl
    | true =>
        have other := isWordStart_of_isDigit digit
        simp only [opensName, other, Bool.false_or, Bool.or_eq_true, beq_iff_eq] at name
        rcases name with (rfl | rfl) | rfl <;> cases digit
  rw [List.cons_append, List.nil_append, read, if_neg (by decide), if_neg (by decide), if_pos rfl, readDot,
    if_neg (by simp [digit])]
  exact if_pos name

end Lexeme

/-- The symbol of a lexeme whose kind has only one spelling. -/
def Symbol.mark (kind : Kind) : Symbol := .ofText kind kind.describe

def Word.ofKeywords (ks : List Keyword) : Word := ks.map fun k => .mark (.keyword k)

namespace Render

open Piece (gap mark word wordsThenGap gapThenWords parens parensIf commas)

/-- The symbol of a piece, unless it is a space. -/
def Piece.symbol? : Piece → Option Symbol
  | .gap => none
  | .lexeme kind text => some (.ofText kind text)

def symbols (pieces : List Piece) : Word := pieces.filterMap Piece.symbol?

def chars (pieces : List Piece) : List Char := pieces.flatMap fun p => p.text.toList

theorem chars_join (pieces : List Piece) : (Piece.join pieces).toList = chars pieces := by
  simp [Piece.join, chars, String.toList_join, List.flatMap_map]

@[simp] theorem symbols_nil : symbols [] = [] := rfl

@[simp] theorem symbols_append (l r : List Piece) : symbols (l ++ r) = symbols l ++ symbols r :=
  List.filterMap_append

@[simp] theorem symbols_gap (r : List Piece) : symbols (gap :: r) = symbols r := rfl

@[simp] theorem symbols_lexeme (kind : Kind) (text : String) (r : List Piece) :
    symbols (.lexeme kind text :: r) = .ofText kind text :: symbols r := rfl

@[simp] theorem symbols_mark (kind : Kind) (r : List Piece) :
    symbols (mark kind :: r) = .mark kind :: symbols r := rfl

@[simp] theorem symbols_word (k : Keyword) (r : List Piece) :
    symbols (word k :: r) = .mark (.keyword k) :: symbols r := rfl

@[simp] theorem symbols_name (value : String) (r : List Piece) :
    symbols (name value :: r) = ⟨.identifier, value⟩ :: symbols r :=
  congrArg (· :: symbols r) (Symbol.ofText_name value)

@[simp] theorem symbols_parens (inside : List Piece) :
    symbols (parens inside) = .mark .leftParen :: (symbols inside ++ [.mark .rightParen]) := by
  simp [parens]

@[simp] theorem symbols_gapThenWords (ks : List Keyword) :
    symbols (gapThenWords ks) = Word.ofKeywords ks := by
  induction ks with
  | nil => rfl
  | cons k ks ih => exact congrArg (_ :: ·) ih

@[simp] theorem symbols_wordsThenGap (ks : List Keyword) :
    symbols (wordsThenGap ks) = Word.ofKeywords ks := by
  induction ks with
  | nil => rfl
  | cons k ks ih => exact congrArg (_ :: ·) ih

@[simp] theorem symbols_commas (entries : List (List Piece)) :
    symbols (commas entries) = [Symbol.mark .comma].intercalate (entries.map symbols) := by
  match entries with
  | [] => rfl
  | [entry] => exact (List.intercalate_singleton).symm
  | entry :: second :: rest =>
      show symbols (entry ++ mark .comma :: gap :: commas (second :: rest)) = _
      rw [symbols_append, symbols_mark, symbols_gap, symbols_commas (second :: rest)]
      simp [List.intercalate_cons_cons]

@[simp] theorem symbols_path (names : List String) :
    symbols (path names) = [Symbol.mark .dot].intercalate (names.map fun n => [⟨.identifier, n⟩]) := by
  match names with
  | [] => rfl
  | [last] => rw [path, symbols_name, List.map_singleton, List.intercalate_singleton, symbols_nil]
  | first :: second :: rest =>
      show symbols (name first :: mark .dot :: path (second :: rest)) = _
      rw [symbols_name, symbols_mark, symbols_path (second :: rest)]
      simp [List.intercalate_cons_cons]

/-- A text that no piece in front of it runs into. -/
def Ends (rest : List Char) : Prop := Stops (fun c => !(c == ' ' || c == ')' || c == ',')) rest

theorem Ends.stops {p : Char → Bool} {rest : List Char} (h : Ends rest) (space : p ' ' = false)
    (closing : p ')' = false) (comma : p ',' = false) : Stops p rest := by
  refine Stops.mono h fun c inside => ?_
  simp only [Bool.not_eq_true', Bool.or_eq_false_iff, beq_eq_false_iff_ne]
  refine ⟨⟨?_, ?_⟩, ?_⟩ <;> (rintro rfl; simp_all)

theorem Ends.cases {rest : List Char} (h : Ends rest) :
    rest = [] ∨ ∃ more, rest = ' ' :: more ∨ rest = ')' :: more ∨ rest = ',' :: more := by
  cases rest with
  | nil => exact Or.inl rfl
  | cons c more =>
      have inside := h c more rfl
      simp only [Bool.not_eq_false', Bool.or_eq_true, beq_iff_eq] at inside
      refine Or.inr ⟨more, ?_⟩
      rcases inside with (rfl | rfl) | rfl
      · exact Or.inl rfl
      · exact Or.inr (Or.inl rfl)
      · exact Or.inr (Or.inr rfl)

def Numerals (w : Word) : Prop := ∀ s ∈ w, s.kind = .number → Lexeme.IsNumeral s.text.toList

/-- Pieces that are scanned back into their symbols, whatever text follows that they do not run into. -/
def Spells (pieces : List Piece) : Prop :=
  Numerals (symbols pieces) → ∀ rest, Ends rest → Lexes (chars pieces ++ rest) (symbols pieces) rest

/-- Pieces that no piece in front of them runs into. -/
def Apart (pieces : List Piece) : Prop :=
  ∀ p more, pieces = p :: more → p = gap ∨ p = mark .rightParen ∨ p = mark .comma

theorem Apart.nil : Apart [] := fun _ _ same => by cases same

theorem Apart.gap (r : List Piece) : Apart (gap :: r) := by
  rintro _ _ ⟨⟩
  exact Or.inl rfl

theorem Apart.mark {kind : Kind} (h : kind = .rightParen ∨ kind = .comma) (r : List Piece) :
    Apart (mark kind :: r) := by
  rintro _ _ ⟨⟩
  rcases h with rfl | rfl
  · exact Or.inr (Or.inl rfl)
  · exact Or.inr (Or.inr rfl)

theorem Apart.ends {r : List Piece} (h : Apart r) {rest : List Char} (ends : Ends rest) :
    Ends (chars r ++ rest) := by
  cases r with
  | nil => exact ends
  | cons p more =>
      rcases h p more rfl with rfl | rfl | rfl
      all_goals
        intro c text same
        cases same
        rfl

namespace Spells

theorem nil : Spells [] := fun _ rest _ => .done rest

theorem gap {r : List Piece} (h : Spells r) : Spells (gap :: r) :=
  fun numerals rest ends => .gap (h numerals rest ends)

theorem append {l r : List Piece} (first : Spells l) (second : Spells r) (apart : Apart r) :
    Spells (l ++ r) := by
  intro numerals rest ends
  rw [symbols_append] at numerals ⊢
  have left : Numerals (symbols l) := fun s mem => numerals s (List.mem_append_left _ mem)
  have right : Numerals (symbols r) := fun s mem => numerals s (List.mem_append_right _ mem)
  rw [chars, List.flatMap_append, List.append_assoc]
  exact (first left _ (apart.ends ends)).trans (second right rest ends)

theorem spaced {l r : List Piece} (first : Spells l) (second : Spells r) : Spells (l ++ .gap :: r) :=
  first.append second.gap (Apart.gap r)

theorem lexeme {kind : Kind} {text : String} {r : List Piece} (live : kind.isTerminal = false)
    (h : Spells r) (reads : Numerals (symbols (.lexeme kind text :: r)) → ∀ rest, Ends rest →
      Lexeme.ReadsAs kind text.toList (chars r ++ rest)) : Spells (.lexeme kind text :: r) := by
  intro numerals rest ends
  have right : Numerals (symbols r) := fun s mem => numerals s (List.mem_cons_of_mem _ mem)
  have first := Lexes.lexeme live (reads numerals rest ends) (h right rest ends)
  rwa [String.ofList_toList, ← List.append_assoc] at first

theorem word (k : Keyword) : Spells [word k] :=
  lexeme rfl nil fun _ _ ends =>
    Lexeme.readsAs_keyword (Token.Keyword.ofText?_spelling k) (ends.stops rfl rfl rfl)

theorem name (value : String) : Spells [Render.name value] :=
  lexeme rfl nil fun _ _ ends =>
    Lexeme.readsAs_name value (ends.stops rfl rfl rfl) (ends.stops rfl rfl rfl)

theorem number (text : String) : Spells [.lexeme .number text] := by
  refine lexeme rfl nil fun numerals _ ends => Lexeme.readsAs_number ?_ (ends.stops rfl rfl rfl)
  exact numerals _ (List.mem_cons_self ..) rfl

theorem string (value : String) : Spells [.lexeme .string (Text.Doubled.quote '\'' value)] :=
  lexeme rfl nil fun _ _ ends => Lexeme.readsAs_string value (ends.stops rfl rfl rfl)

theorem lone {c : Char} {kind : Kind} {r : List Piece} (mem : (c, kind) ∈ Lexeme.lone)
    (h : Spells r) : Spells (mark kind :: r) := by
  have spelling : kind.describe.toList = [c] ∧ kind.isTerminal = false := by
    simp only [Lexeme.lone, List.mem_cons, Prod.mk.injEq, List.not_mem_nil, or_false] at mem
    rcases mem with ⟨rfl, rfl⟩ | ⟨rfl, rfl⟩ | ⟨rfl, rfl⟩ | ⟨rfl, rfl⟩ | ⟨rfl, rfl⟩ | ⟨rfl, rfl⟩
    all_goals exact ⟨rfl, rfl⟩
  refine lexeme spelling.2 h fun _ _ _ => ?_
  rw [spelling.1]
  exact Lexeme.readsAs_lone mem _

theorem operator (op : BinaryOp) : Spells [mark op.kind] := by
  cases op
  case or => exact word .OR
  case and => exact word .AND
  case add => exact lone (c := '+') (by decide) nil
  case mul => exact lone (c := '*') (by decide) nil
  case sub => exact lexeme rfl nil fun _ _ ends => Lexeme.readsAs_minus (ends.stops rfl rfl rfl)
  case div =>
    refine lexeme rfl nil fun _ rest ends => ⟨Lexeme.Trivia.split_eq_nil rfl ?_ ?_, ?_⟩
    · exact fun same => absurd same (by decide)
    · exact fun _ => ends.stops rfl rfl rfl
    · rcases ends.cases with rfl | ⟨more, rfl | rfl | rfl⟩ <;> rfl
  all_goals
    refine lexeme rfl nil fun _ rest ends => ⟨Lexeme.Trivia.split_eq_nil rfl ?_ ?_, ?_⟩
    · exact fun same => absurd same (by decide)
    · exact fun same => absurd same (by decide)
    · rcases ends.cases with rfl | ⟨more, rfl | rfl | rfl⟩ <;> rfl

theorem parens {inside : List Piece} (h : Spells inside) : Spells (parens inside) := by
  have closing : Spells [mark .rightParen] := lone (c := ')') (by decide) nil
  exact lone (c := '(') (by decide) (h.append closing (.mark (Or.inl rfl) _))

theorem parensIf {inside : List Piece} (h : Spells inside) (needed : Bool) :
    Spells (parensIf needed inside) := by
  cases needed with
  | false => exact h
  | true => exact h.parens

theorem wordsThenGap {r : List Piece} (h : Spells r) (ks : List Keyword) :
    Spells (wordsThenGap ks ++ r) := by
  induction ks with
  | nil => exact h
  | cons k ks ih => exact (word k).spaced ih

theorem gapThenWords (ks : List Keyword) : Spells (gapThenWords ks) ∧ Apart (gapThenWords ks) := by
  induction ks with
  | nil => exact ⟨nil, Apart.nil⟩
  | cons k ks ih => exact ⟨((word k).append ih.1 ih.2).gap, Apart.gap _⟩

theorem commas {entries : List (List Piece)} (h : ∀ entry ∈ entries, Spells entry) :
    Spells (commas entries) := by
  match entries, h with
  | [], _ => exact nil
  | [entry], h => exact h entry (List.mem_cons_self ..)
  | entry :: second :: rest, h =>
      have others := commas fun e mem => h e (List.mem_cons_of_mem entry mem)
      have after : Spells (mark .comma :: .gap :: Piece.commas (second :: rest)) :=
        lone (c := ',') (by decide) others.gap
      exact (h entry (List.mem_cons_self ..)).append after (.mark (Or.inr rfl) _)

theorem name_cons {value : String} {r : List Piece} (h : Spells r)
    (stops : ∀ rest, Ends rest → Stops (fun c => isWordChar c || c == '"') (chars r ++ rest)) :
    Spells (Render.name value :: r) := by
  refine lexeme rfl h fun _ rest ends => Lexeme.readsAs_name value ?_ ?_
  · exact (stops rest ends).mono fun c inside => by simp [inside]
  · exact (stops rest ends).mono fun c inside => by simp [inside]

def AfterDot (r : List Piece) : Prop :=
  ∃ c more, chars r = c :: more ∧ Lexeme.opensName c = true

theorem afterDot_name (value : String) (r : List Piece) : AfterDot (Render.name value :: r) := by
  obtain ⟨c, more, spelling, start⟩ : ∃ c more, (Name.spelling value).toList = c :: more ∧
      Lexeme.opensName c = true := by
    unfold Name.spelling
    split
    · rename_i plain
      unfold Name.isPlain at plain
      split at plain
      · cases plain
      · rename_i c text same
        simp only [Bool.and_eq_true] at plain
        exact ⟨c, text, same, by simp [Lexeme.opensName, plain.1.1]⟩
    · exact ⟨'"', _, String.toList_ofList, rfl⟩
  refine ⟨c, more ++ chars r, ?_, start⟩
  show (Name.spelling value).toList ++ chars r = _
  rw [spelling, List.cons_append]

theorem dotted {value : String} {r : List Piece} (h : Spells r) (after : AfterDot r) :
    Spells (Render.name value :: mark .dot :: r) := by
  obtain ⟨c, more, same, start⟩ := after
  have dot : Spells (mark .dot :: r) := by
    refine lexeme rfl h fun _ rest _ => ?_
    rw [same]
    exact Lexeme.readsAs_dot start
  exact name_cons dot fun rest _ => by
    rintro _ _ ⟨⟩
    rfl

/-- Names with points between them, in front of what may follow the last one. -/
theorem path_append {r : List Piece} (last : ∀ value, Spells (Render.name value :: r))
    {names : List String} (some_ : names ≠ []) : Spells (path names ++ r) := by
  match names, some_ with
  | [value], _ => exact last value
  | first :: second :: rest, _ =>
      have others : Spells (Render.path (second :: rest) ++ r) := path_append last (by simp)
      have head : AfterDot (Render.path (second :: rest) ++ r) := by
        cases rest with
        | nil => exact afterDot_name _ _
        | cons third rest => exact afterDot_name _ _
      exact dotted others head

theorem path (names : List String) : Spells (path names) := by
  cases names with
  | nil => exact nil
  | cons first rest =>
      have whole : Spells (Render.path (first :: rest) ++ []) := path_append name (by simp)
      rwa [List.append_nil] at whole

theorem columnRef (names : List String) (wildcard : Bool) : Spells (columnRef names wildcard) := by
  have star : Spells [mark .star] := lone (c := '*') (by decide) nil
  cases wildcard with
  | false => exact path names
  | true =>
      cases names with
      | nil => exact star
      | cons first rest =>
          exact path_append (fun value => dotted star ⟨'*', [], rfl, rfl⟩) (by simp)

theorem functionName {inside : List Piece} (h : Spells inside) (names : List String) :
    Spells (functionName names ++ Piece.parens inside) := by
  have paths : Spells (Render.path names ++ Piece.parens inside) := by
    cases names with
    | nil => exact h.parens
    | cons first rest =>
        refine path_append (fun value => name_cons h.parens fun rest _ => ?_) (by simp)
        rintro _ _ ⟨⟩
        rfl
  unfold Render.functionName
  split
  · split
    · rename_i k found
      split
      · refine lexeme rfl h.parens fun _ rest _ => Lexeme.readsAs_keyword found ?_
        rintro _ _ ⟨⟩
        rfl
      · exact paths
    · exact paths
  · exact paths

theorem aliasPart (o : Option String) : Spells (aliasPart o) ∧ Apart (aliasPart o) := by
  cases o with
  | none => exact ⟨nil, Apart.nil⟩
  | some n => exact ⟨((word .AS).spaced (name n)).gap, Apart.gap _⟩

theorem columnList (columns : List String) : Spells (columnList columns) ∧ Apart (columnList columns) := by
  unfold Render.columnList
  split
  · exact ⟨nil, Apart.nil⟩
  · refine ⟨(Spells.parens (commas fun entry mem => ?_)).gap, Apart.gap _⟩
    obtain ⟨c, _, rfl⟩ := List.mem_map.mp mem
    exact name c

/-- A text that is scanned into a word that starts with no minus starts with no minus. -/
theorem stops_minus {text rest : List Char} {w : Word} (h : Lexes text w rest) (ends : Ends rest)
    (other : ∀ s more, w = s :: more → s.kind ≠ .minus) : Stops (· == '-') text := by
  cases h with
  | done => exact ends.stops rfl rfl rfl
  | gap =>
      rintro _ _ ⟨⟩
      rfl
  | @lexeme kind chars text _ w live reads h =>
      intro c more same
      cases dash : c == '-' with
      | false => exact dash
      | true =>
          obtain rfl := beq_iff_eq.mp dash
          have read := reads.2
          rw [same] at read
          have minus : (Lexeme.read ('-' :: more)).kind = .minus := by
            cases more <;> rfl
          rw [read] at minus
          exact absurd minus (other _ _ rfl)

/-- Pieces whose first symbol, if they have one, is no minus. -/
def StartsWithoutMinus (pieces : List Piece) : Prop :=
  ∀ s more, symbols pieces = s :: more → s.kind ≠ .minus

theorem StartsWithoutMinus.lexeme {kind : Kind} {text : String} (pieces : List Piece) (other : kind ≠ .minus) :
    StartsWithoutMinus (.lexeme kind text :: pieces) := by
  rintro _ _ ⟨⟩
  exact other

theorem StartsWithoutMinus.path (names : List String) {pieces : List Piece}
    (h : StartsWithoutMinus pieces) : StartsWithoutMinus (Render.path names ++ pieces) := by
  rcases names with _ | ⟨_, _ | _⟩
  · exact h
  · exact .lexeme _ (by simp)
  · exact .lexeme _ (by simp)

theorem StartsWithoutMinus.columnRef (names : List String) (wildcard : Bool) :
    StartsWithoutMinus (Render.columnRef names wildcard) := by
  cases wildcard with
  | false =>
      have path : StartsWithoutMinus (Render.path names ++ []) := .path names (by simp [StartsWithoutMinus])
      rwa [List.append_nil] at path
  | true =>
      cases names with
      | nil => exact .lexeme _ (by simp)
      | cons first rest => exact .path (first :: rest) (.lexeme _ (by simp))

theorem StartsWithoutMinus.functionName (names : List String) (inside : List Piece) :
    StartsWithoutMinus (Render.functionName names ++ Piece.parens inside) := by
  have path : StartsWithoutMinus (Render.path names ++ Piece.parens inside) :=
    .path names (.lexeme _ (by simp))
  unfold Render.functionName
  split
  · split
    · split
      · exact .lexeme _ (by simp)
      · exact path
    · exact path
  · exact path

theorem signed_startsWithoutMinus (e : Expr) : StartsWithoutMinus (signed e (expr e)) := by
  by_cases low : Level.ofExpr e < Level.primary
  · have inside : signed e (expr e) = Piece.parens (expr e) := by
      unfold signed
      split
      · rfl
      · simp [atLevel, Piece.parensIf, low]
    rw [inside]
    exact .lexeme _ (by simp)
  · cases e with
    | unary => exact .lexeme _ (by simp)
    | binary op _ _ => exact absurd (by cases op <;> exact of_decide_eq_true rfl) low
    | is value _ _ => exact absurd (by cases value <;> exact of_decide_eq_true rfl) low
    | quantified | between | inQuery | inValues | like | existsQuery =>
        exact absurd (of_decide_eq_true rfl) low
    | column names wildcard =>
        have written : signed (.column names wildcard) (expr (.column names wildcard)) =
            Render.columnRef names wildcard := by rw [expr]; rfl
        rw [written]
        exact .columnRef names wildcard
    | call names arguments =>
        have written : signed (.call names arguments) (expr (.call names arguments)) =
            Render.functionName names ++ Piece.parens (Piece.commas (exprs arguments)) := by
          rw [expr]; rfl
        rw [written]
        exact .functionName names _
    | bool value | null | number | string | parameter | case | list | subquery =>
        simp only [signed, atLevel, Level.ofExpr, expr]
        exact .lexeme _ (by simp)

end Spells

theorem atLevel_spells {e : Expr} {pieces : List Piece} (h : Spells pieces) (level : Level) :
    Spells (atLevel level e pieces) := h.parensIf _

theorem signed_spells {e : Expr} {pieces : List Piece} (h : Spells pieces) :
    Spells (signed e pieces) := by
  unfold signed
  split
  · exact h.parens
  · exact h.parensIf _

theorem sign_spells {e : Expr} {op : UnaryOp} (sign : op = .plus ∨ op = .neg) (h : Spells (expr e)) :
    Spells (mark op.kind :: signed e (expr e)) := by
  have operand := signed_spells (e := e) h
  rcases sign with rfl | rfl
  · exact .lone (c := '+') (by decide) operand
  · refine .lexeme rfl operand fun numerals rest ends => Lexeme.readsAs_minus ?_
    exact Spells.stops_minus (operand (fun s mem => numerals s (List.mem_cons_of_mem _ mem)) rest ends)
      ends (Spells.signed_startsWithoutMinus e)

theorem Spells.then_words {l : List Piece} (h : Spells l) (ks : List Keyword) :
    Spells (l ++ Piece.gapThenWords ks) :=
  h.append (Spells.gapThenWords ks).1 (Spells.gapThenWords ks).2

mutual

theorem expr_spells (e : Expr) : Spells (expr e) := by
  cases e with
  | binary op left right =>
      rw [expr]
      exact (atLevel_spells (expr_spells left) _).spaced
        ((Spells.operator op).spaced (atLevel_spells (expr_spells right) _))
  | unary op operand =>
      cases op with
      | not =>
          rw [expr]
          exact (Spells.word .NOT).spaced (atLevel_spells (expr_spells operand) _)
      | plus => exact sign_spells (Or.inl rfl) (expr_spells operand)
      | neg => exact sign_spells (Or.inr rfl) (expr_spells operand)
  | is value negated operand =>
      rw [expr]
      exact (atLevel_spells (expr_spells operand) _).then_words _
  | quantified op quantifier left query =>
      rw [expr]
      exact (atLevel_spells (expr_spells left) _).spaced ((Spells.operator op).spaced
        ((Spells.word _).spaced (statement_spells query).parens))
  | between negated operand low high =>
      rw [expr]
      have bounds := (atLevel_spells (e := low) (expr_spells low) Level.sum).spaced
        ((Spells.word .AND).spaced (atLevel_spells (e := high) (expr_spells high) Level.sum))
      exact ((atLevel_spells (expr_spells operand) _).then_words _).spaced bounds
  | inQuery negated operand query =>
      rw [expr]
      exact ((atLevel_spells (expr_spells operand) _).then_words _).spaced (statement_spells query).parens
  | inValues negated operand values =>
      rw [expr]
      exact ((atLevel_spells (expr_spells operand) _).then_words _).spaced
        (Spells.commas (exprs_spells values)).parens
  | like negated operand pattern escape =>
      rw [expr]
      have sought := (atLevel_spells (e := pattern) (expr_spells pattern) Level.sum).append
        (escapePart_spells escape).1 (escapePart_spells escape).2
      exact ((atLevel_spells (expr_spells operand) _).then_words _).spaced sought
  | existsQuery query =>
      rw [expr]
      exact (Spells.word .EXISTS).spaced (statement_spells query).parens
  | bool value => exact .word _
  | null => exact .word _
  | number text => exact .number text
  | string value => exact .string value
  | parameter position => exact .lone (c := '?') (by decide) .nil
  | column names wildcard =>
      rw [expr]
      exact .columnRef names wildcard
  | call names arguments =>
      rw [expr]
      exact .functionName (.commas (exprs_spells arguments)) names
  | list items =>
      rw [expr]
      exact (Spells.commas (exprs_spells items)).parens
  | subquery query =>
      rw [expr]
      exact (statement_spells query).parens
  | case operand branches otherwise =>
      rw [expr]
      have start := ((Spells.word .CASE).append (operandPart_spells operand).1
        (operandPart_spells operand).2).append (branchParts_spells branches).1
        (branchParts_spells branches).2
      exact (start.append (elsePart_spells otherwise).1 (elsePart_spells otherwise).2).spaced (.word .END)

theorem exprs_spells (es : List Expr) : ∀ entry ∈ exprs es, Spells entry := by
  cases es with
  | nil => simp [exprs]
  | cons e rest =>
      rw [exprs]
      exact List.forall_mem_cons.mpr ⟨expr_spells e, exprs_spells rest⟩

theorem escapePart_spells (o : Option Expr) : Spells (escapePart o) ∧ Apart (escapePart o) := by
  cases o with
  | none => exact ⟨.nil, .nil⟩
  | some e =>
      rw [escapePart]
      exact ⟨((Spells.word .ESCAPE).spaced (atLevel_spells (expr_spells e) _)).gap, .gap _⟩

theorem operandPart_spells (o : Option Expr) : Spells (operandPart o) ∧ Apart (operandPart o) := by
  cases o with
  | none => exact ⟨.nil, .nil⟩
  | some e =>
      rw [operandPart]
      exact ⟨(atLevel_spells (expr_spells e) _).gap, .gap _⟩

theorem branchParts_spells (branches : List (Expr × Expr)) :
    Spells (branchParts branches) ∧ Apart (branchParts branches) := by
  match branches with
  | [] => exact ⟨.nil, .nil⟩
  | (condition, result) :: rest =>
      rw [branchParts]
      have results := (expr_spells result).append (branchParts_spells rest).1 (branchParts_spells rest).2
      exact ⟨((Spells.word .WHEN).spaced ((expr_spells condition).spaced
        ((Spells.word .THEN).spaced results))).gap, .gap _⟩

theorem elsePart_spells (o : Option Expr) : Spells (elsePart o) ∧ Apart (elsePart o) := by
  cases o with
  | none => exact ⟨.nil, .nil⟩
  | some e =>
      rw [elsePart]
      exact ⟨((Spells.word .ELSE).spaced (expr_spells e)).gap, .gap _⟩

theorem conditionPart_spells (k : Keyword) (o : Option Expr) :
    Spells (conditionPart k o) ∧ Apart (conditionPart k o) := by
  cases o with
  | none => exact ⟨.nil, .nil⟩
  | some e =>
      rw [conditionPart]
      exact ⟨((Spells.word k).spaced (expr_spells e)).gap, .gap _⟩

theorem rows_spells (es : List Expr) : ∀ entry ∈ rows es, Spells entry := by
  cases es with
  | nil => simp [rows]
  | cons e rest =>
      rw [rows]
      exact List.forall_mem_cons.mpr ⟨atLevel_spells (expr_spells e) _, rows_spells rest⟩

theorem groupingPart_spells (o : Option Grouping) : Spells (groupingPart o) ∧ Apart (groupingPart o) := by
  match o with
  | none => exact ⟨.nil, .nil⟩
  | some ⟨quantifier, items⟩ =>
      rw [groupingPart]
      exact ⟨((Spells.word .GROUP).spaced ((Spells.word .BY).spaced
        (.wordsThenGap (.commas (rows_spells items)) _))).gap, .gap _⟩

theorem projections_spells (entries : List Projection) : ∀ entry ∈ projections entries, Spells entry := by
  match entries with
  | [] => simp [projections]
  | ⟨e, aliasName⟩ :: rest =>
      rw [projections]
      have first := (atLevel_spells (e := e) (expr_spells e) Level.sum).append (Spells.aliasPart aliasName).1
        (Spells.aliasPart aliasName).2
      exact List.forall_mem_cons.mpr ⟨first, projections_spells rest⟩

theorem orderItems_spells (items : List OrderItem) : ∀ entry ∈ orderItems items, Spells entry := by
  match items with
  | [] => simp [orderItems]
  | ⟨e, direction⟩ :: rest =>
      rw [orderItems]
      exact List.forall_mem_cons.mpr
        ⟨(atLevel_spells (expr_spells e) _).then_words _, orderItems_spells rest⟩

theorem tableRef_spells (t : TableRef) : Spells (tableRef t) := by
  cases t with
  | relation names aliasName =>
      rw [tableRef]
      exact (Spells.path names).append (Spells.aliasPart aliasName).1 (Spells.aliasPart aliasName).2
  | derived query aliasName columns =>
      rw [tableRef]
      exact ((statement_spells query).parens.append (Spells.aliasPart _).1 (Spells.aliasPart _).2).append
        (Spells.columnList columns).1 (Spells.columnList columns).2
  | join kind left right condition =>
      rw [tableRef]
      have inside := tableRef_spells right
      have other : Spells (joined right (tableRef right)) := by
        unfold joined
        split
        · exact inside.parens
        · exact inside
      exact ((tableRef_spells left).then_words _).spaced
        (other.append (conditionPart_spells .ON condition).1 (conditionPart_spells .ON condition).2)

theorem tableRefs_spells (tables : List TableRef) : ∀ entry ∈ tableRefs tables, Spells entry := by
  cases tables with
  | nil => simp [tableRefs]
  | cons t rest =>
      rw [tableRefs]
      exact List.forall_mem_cons.mpr ⟨tableRef_spells t, tableRefs_spells rest⟩

theorem fromPart_spells (tables : List TableRef) : Spells (fromPart tables) ∧ Apart (fromPart tables) := by
  cases tables with
  | nil => exact ⟨.nil, .nil⟩
  | cons t rest =>
      rw [fromPart]
      have entries := List.forall_mem_cons.mpr ⟨tableRef_spells t, tableRefs_spells rest⟩
      exact ⟨((Spells.word .FROM).spaced (.commas entries)).gap, .gap _⟩

theorem selectBlock_spells (b : SelectBlock) : Spells (selectBlock b) := by
  match b with
  | ⟨quantifier, entries, tables, filter, grouping, having⟩ =>
      rw [selectBlock]
      have list := (Spells.commas (projections_spells entries)).wordsThenGap quantifier.keyword?.toList
      have filtered := (list.append (fromPart_spells tables).1 (fromPart_spells tables).2).append
        (conditionPart_spells .WHERE filter).1 (conditionPart_spells .WHERE filter).2
      have grouped := (filtered.append (groupingPart_spells grouping).1 (groupingPart_spells grouping).2).append
        (conditionPart_spells .HAVING having).1 (conditionPart_spells .HAVING having).2
      exact (Spells.word .SELECT).spaced grouped

theorem body_spells (b : Body) : Spells (body b) := by
  cases b with
  | setOp op quantifier left right =>
      rw [body]
      exact (((body_spells left).parensIf _).then_words _).spaced ((body_spells right).parensIf _)
  | block block =>
      rw [body]
      exact selectBlock_spells block

theorem namedQueries_spells (queries : List NamedQuery) : ∀ entry ∈ namedQueries queries, Spells entry := by
  match queries with
  | [] => simp [namedQueries]
  | ⟨n, columns, query⟩ :: rest =>
      rw [namedQueries]
      have named := (Spells.name n).append (Spells.columnList columns).1 (Spells.columnList columns).2
      exact List.forall_mem_cons.mpr
        ⟨named.spaced ((Spells.word .AS).spaced (statement_spells query).parens), namedQueries_spells rest⟩

theorem withPart_spells {r : List Piece} (o : Option WithClause) (h : Spells r) :
    Spells (withPart o ++ r) := by
  match o with
  | none => exact h
  | some ⟨recursive, queries⟩ =>
      rw [withPart]
      have entries := ((Spells.commas (namedQueries_spells queries)).wordsThenGap
        (if recursive then [.RECURSIVE] else [])).spaced h
      simpa only [List.cons_append, List.append_assoc, List.nil_append] using
        (Spells.word .WITH).spaced entries

theorem statement_spells (q : Statement) : Spells (statement q) := by
  match q with
  | ⟨withClause, queryBody, orderBy⟩ =>
      rw [statement, List.append_assoc]
      exact withPart_spells withClause
        ((body_spells queryBody).append (orderPart_spells orderBy).1 (orderPart_spells orderBy).2)

theorem orderPart_spells (items : List OrderItem) : Spells (orderPart items) ∧ Apart (orderPart items) := by
  match items with
  | [] => exact ⟨.nil, .nil⟩
  | ⟨e, direction⟩ :: rest =>
      rw [orderPart]
      have entries := List.forall_mem_cons.mpr
        ⟨(atLevel_spells (e := e) (expr_spells e) Level.sum).then_words direction.keyword?.toList,
          orderItems_spells rest⟩
      exact ⟨((Spells.word .ORDER).spaced ((Spells.word .BY).spaced (.commas entries))).gap, .gap _⟩

end

theorem Spells.tokenize {pieces : List Piece} (h : Spells pieces) (numerals : Numerals (symbols pieces)) :
    (Scanner.ofText (Piece.join pieces)).tokenize.map Token.symbol = symbols pieces ++ [⟨.eof, ""⟩] := by
  refine Lexes.tokenize ?_
  have whole := h numerals [] fun _ _ same => by cases same
  rwa [List.append_nil, ← chars_join] at whole

end Render

end SelectSyntax
