import SelectSyntax.Token.Basic

/-!
Errors of parsing: what was wrong, and the token where it was found. The wording of messages is
decided here alone.
-/

set_option autoImplicit false
set_option relaxedAutoImplicit false

namespace SelectSyntax.Parse

open Text (Place)
open Token (Kind)

inductive Cause where
  /-- It is none of the kinds that the grammar accepts here, listed in the order it tries them. -/
  | unexpected (expected : List Kind)
  /-- It starts a clause that the grammar forbids here. -/
  | notAllowed (what : String)
  /-- It starts a construct nested deeper than the limit. -/
  | tooDeep (limit : Nat)
  deriving DecidableEq, Repr

inductive ErrorKind where
  | lexical
  | unexpectedToken
  | clauseNotAllowed
  | nestingTooDeep
  deriving DecidableEq, Repr

structure ParseError where
  cause : Cause
  found : Token
  deriving DecidableEq, Repr

namespace ParseError

/-- The class of an error. A malformed lexeme where another token was expected is a lexical error. -/
def kind (e : ParseError) : ErrorKind :=
  match e.cause with
  | .unexpected _ =>
      match e.found.kind with
      | .fault _ => .lexical
      | _ => .unexpectedToken
  | .notAllowed _ => .clauseNotAllowed
  | .tooDeep _ => .nestingTooDeep

def isLexical (e : ParseError) : Bool := e.kind == .lexical

def expected (e : ParseError) : List Kind :=
  match e.cause with
  | .unexpected kinds => kinds
  | _ => []

def position (e : ParseError) : Place := e.found.place

def lexeme (e : ParseError) : String := e.found.lexeme

def complaint (found : Token) : String :=
  match found.kind with
  | .fault f => f.message
  | _ => "unexpected"

def expectation (kinds : List Kind) : String :=
  if kinds.isEmpty then ""
  else ", expected " ++ " | ".intercalate (kinds.map Kind.describe)

def message (e : ParseError) : String :=
  match e.cause with
  | .unexpected kinds =>
      complaint e.found ++ " `" ++ e.lexeme ++ "` at " ++ e.position.label ++ expectation kinds
  | .notAllowed what => what ++ " at " ++ e.position.label
  | .tooDeep limit =>
      "nesting deeper than " ++ toString limit ++ " levels at " ++ e.position.label

end ParseError

end SelectSyntax.Parse
