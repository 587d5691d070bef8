import SelectSyntax.Token.Kind

/-!
Operators and the small choices of the language that are written as one token or a fixed run of
keywords.
-/

set_option autoImplicit false
set_option relaxedAutoImplicit false

namespace SelectSyntax.SyntaxTree

open Token (Kind Keyword)

inductive BinaryOp where
  | or | and
  | eq | notEq | lt | ltEq | gt | gtEq
  | add | sub | concat | mul | div | mod | pow
  deriving DecidableEq, Repr

namespace BinaryOp

def kind : BinaryOp → Kind
  | .or => .keyword .OR
  | .and => .keyword .AND
  | .eq => .eq
  | .notEq => .notEq
  | .lt => .lt
  | .ltEq => .ltEq
  | .gt => .gt
  | .gtEq => .gtEq
  | .add => .plus
  | .sub => .minus
  | .concat => .concat
  | .mul => .star
  | .div => .slash
  | .mod => .percent
  | .pow => .caret

def spelling (op : BinaryOp) : String := op.kind.describe

def isComparison : BinaryOp → Bool
  | .eq | .notEq | .lt | .ltEq | .gt | .gtEq => true
  | _ => false

def comparison? : Kind → Option BinaryOp
  | .eq => some .eq
  | .notEq => some .notEq
  | .lt => some .lt
  | .ltEq => some .ltEq
  | .gt => some .gt
  | .gtEq => some .gtEq
  | _ => none

def sum? : Kind → Option BinaryOp
  | .plus => some .add
  | .minus => some .sub
  | .concat => some .concat
  | _ => none

def product? : Kind → Option BinaryOp
  | .star => some .mul
  | .slash => some .div
  | .percent => some .mod
  | _ => none

end BinaryOp

inductive UnaryOp where
  | not | plus | neg
  deriving DecidableEq, Repr

namespace UnaryOp

def kind : UnaryOp → Kind
  | .not => .keyword .NOT
  | .plus => .plus
  | .neg => .minus

def spelling (op : UnaryOp) : String := op.kind.describe

end UnaryOp

/-- What `IS` compares with. -/
inductive TruthValue where
  | true | false | unknown | null
  deriving DecidableEq, Repr

namespace TruthValue

def keyword : TruthValue → Keyword
  | .true => .TRUE
  | .false => .FALSE
  | .unknown => .UNKNOWN
  | .null => .NULL

end TruthValue

/-- How many rows of a subquery a comparison has to hold for. -/
inductive Quantifier where
  | all | some | any
  deriving DecidableEq, Repr

namespace Quantifier

def keyword : Quantifier → Keyword
  | .all => .ALL
  | .some => .SOME
  | .any => .ANY

def ofKind? : Kind → Option Quantifier
  | .keyword .ALL => Option.some .all
  | .keyword .SOME => Option.some .some
  | .keyword .ANY => Option.some .any
  | _ => none

end Quantifier

inductive SetOp where
  | union | except | intersect
  deriving DecidableEq, Repr

namespace SetOp

def keyword : SetOp → Keyword
  | .union => .UNION
  | .except => .EXCEPT
  | .intersect => .INTERSECT

end SetOp

/-- Whether equal rows are kept, where the language lets it be said. -/
inductive SetQuantifier where
  | unspecified | all | distinct
  deriving DecidableEq, Repr

namespace SetQuantifier

instance : Inhabited SetQuantifier := ⟨.unspecified⟩

def keyword? : SetQuantifier → Option Keyword
  | .unspecified => none
  | .all => some .ALL
  | .distinct => some .DISTINCT

end SetQuantifier

inductive Direction where
  | unspecified | asc | desc
  deriving DecidableEq, Repr

namespace Direction

instance : Inhabited Direction := ⟨.unspecified⟩

def keyword? : Direction → Option Keyword
  | .unspecified => none
  | .asc => some .ASC
  | .desc => some .DESC

end Direction

end SelectSyntax.SyntaxTree
