import SelectSyntax.Proofs.Grammar

/-!
The terminals of the grammar are those that the rules of the parser take, and they stand for the same. Kinds that
are no keywords are told apart at once, and the keywords are gone through one by one.
-/

set_option autoImplicit false
set_option relaxedAutoImplicit false

namespace SelectSyntax.Grammar

open Token (Keyword)
open SyntaxTree
open Form

theorem power_eq : power = chain Parse.power? primary :=
  congrArg (chain · primary) <| funext fun k => by cases k <;> rfl

theorem product_eq : product = chain BinaryOp.product? power :=
  congrArg (chain · power) <| funext fun k => by cases k <;> rfl

theorem sum_eq : sum = chain BinaryOp.sum? product :=
  congrArg (chain · product) <| funext fun k => by cases k <;> rfl

theorem comparison_eq : comparison = oneOf BinaryOp.comparison? :=
  congrArg oneOf <| funext fun k => by cases k <;> rfl

theorem quantifier_eq : quantifier = oneOf Quantifier.ofKind? :=
  congrArg oneOf <| funext fun k => by cases k with | keyword j => cases j <;> rfl | _ => rfl

theorem truthValue_eq : truthValue = oneOf Parse.truthValue? :=
  congrArg oneOf <| funext fun k => by cases k with | keyword j => cases j <;> rfl | _ => rfl

theorem conjunction_eq : conjunction = chain Parse.and? negation :=
  congrArg (chain · negation) <| funext fun k => by cases k with | keyword j => cases j <;> rfl | _ => rfl

theorem condition_eq : condition = chain Parse.or? conjunction :=
  congrArg (chain · conjunction) <| funext fun k => by cases k with | keyword j => cases j <;> rfl | _ => rfl

theorem setQuantifier_eq : setQuantifier = (oneOf Parse.setQuantifier? <|> pure .unspecified) :=
  congrArg (oneOf · <|> pure SetQuantifier.unspecified) <| funext fun k => by
    cases k with | keyword j => cases j <;> rfl | _ => rfl

theorem direction_eq : direction = (oneOf Parse.direction? <|> pure .unspecified) :=
  congrArg (oneOf · <|> pure Direction.unspecified) <| funext fun k => by
    cases k with | keyword j => cases j <;> rfl | _ => rfl

theorem term_eq : term = setChain Parse.intersect? bodyPrimary :=
  congrArg (setChain · bodyPrimary) <| funext fun k => by cases k with | keyword j => cases j <;> rfl | _ => rfl

theorem body_eq : body = setChain Parse.unionOrExcept? term :=
  congrArg (setChain · term) <| funext fun k => by cases k with | keyword j => cases j <;> rfl | _ => rfl

theorem mem_functionWords {k : Keyword} :
    .keyword k ∈ functionWords.map Token.Kind.keyword ↔ k.isFunctionName = true := by
  cases k <;> decide

theorem functionWord_eq : functionWord = .symbol fun s => match s.kind with
    | .keyword k => if k.isFunctionName then some s.text else none
    | _ => none := by
  refine congrArg Form.symbol (funext fun s => ?_)
  cases kind : s.kind with
  | keyword k => simp only [mem_functionWords]
  | _ => rfl

theorem parenthesis_eq : parenthesis = prefer (construct .query) conditions Parse.ofParenthesis :=
  congrArg (prefer _ _) <| funext fun x => by rcases x with query | (_ | ⟨item, _ | _⟩) <;> rfl

end SelectSyntax.Grammar
