import SelectSyntax.Token.Keyword

/-!
Kinds of joins. Two kinds that differ only in a word that may be left out are kept apart, so that a
join is written back as it was read.
-/

set_option autoImplicit false
set_option relaxedAutoImplicit false

namespace SelectSyntax.SyntaxTree

open Token (Keyword)

inductive JoinSide where
  | plain
  | inner
  | left (outer : Bool)
  | right (outer : Bool)
  | full (outer : Bool)
  deriving DecidableEq, Repr

namespace JoinSide

def outerWords (outer : Bool) : List Keyword := if outer then [.OUTER] else []

def words : JoinSide → List Keyword
  | .plain => []
  | .inner => [.INNER]
  | .left outer => .LEFT :: outerWords outer
  | .right outer => .RIGHT :: outerWords outer
  | .full outer => .FULL :: outerWords outer

end JoinSide

/-- A join: crossed, or on one side and natural or not. -/
inductive JoinKind where
  | cross
  | sided (natural : Bool) (side : JoinSide)
  deriving DecidableEq, Repr

namespace JoinKind

def words : JoinKind → List Keyword
  | .cross => [.CROSS, .JOIN]
  | .sided natural side => (if natural then [.NATURAL] else []) ++ side.words ++ [.JOIN]

def spelling (kind : JoinKind) : String := " ".intercalate (kind.words.map Keyword.spelling)

def isNatural : JoinKind → Bool
  | .cross => false
  | .sided natural _ => natural

/-- The joins that an `ON` condition has to follow; it may follow no other. -/
def requiresCondition : JoinKind → Bool
  | .cross => false
  | .sided natural _ => !natural

end JoinKind

end SelectSyntax.SyntaxTree
