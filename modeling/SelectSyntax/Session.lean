import SelectSyntax.Parse.Nesting
import SelectSyntax.Render.Sql
import SelectSyntax.SyntaxTree.Equality

/-!
Sessions: rules run one after another on one scanner. The place in the text and the numbering of
parameters go on from rule to rule, after an error too.
-/

set_option autoImplicit false
set_option relaxedAutoImplicit false

namespace SelectSyntax

open Parse
open SyntaxTree (Expr Statement)

/-- What a session accepts: how deep constructs may nest, without a bound if none is given, and
whether a whole text has to be used up. -/
structure Config where
  maxDepth : Option Nat := none
  requireEnd : Bool := true
  deriving DecidableEq, Repr

/-- A scanner, a configuration, the number of parameters met so far, and the number of levels of nesting that
are open. -/
structure Session where
  scanner : Scanner
  config : Config
  parameters : Nat
  depth : Nat

namespace Session

/-- A session that goes on from a scanner, which is moved to its first token if need be. -/
def ofScanner (scanner : Scanner) (config : Config) : Session := ⟨scanner.primed, config, 0, 0⟩

def ofText (text : String) (config : Config) : Session := ofScanner (Scanner.ofText text) config

def state (s : Session) : State := ⟨⟨s.scanner.state, s.scanner.ahead⟩, s.parameters, s.depth⟩

def moveTo (s : Session) (t : State) : Session :=
  { s with
    scanner := { s.scanner with state := t.cursor.current }
    parameters := t.parameters
    depth := t.depth }

/-- The outcome of a parser, and the session afterwards. -/
def run {α : Type} (s : Session) (p : Parser α) : Except ParseError α × Session :=
  match p s.state with
  | .ok a t => (.ok a, s.moveTo t)
  | .error f t => (.error f.toError, s.moveTo t)

def construct (s : Session) : Inner := constructs s.config.maxDepth (s.state.cursor.remaining + 1)

def parse (s : Session) : Except ParseError Statement × Session :=
  s.run (wholeStatement s.config.requireEnd s.construct)

/-- Parses a query and stops at the first token that cannot go on with it. -/
def select (s : Session) : Except ParseError Statement × Session := s.run (s.construct .query)

def condition (s : Session) : Except ParseError Expr × Session := s.run (s.construct .condition)

end Session

namespace Scanner

/-- Parses a query from a scanner, and gives the scanner on the first token after it. -/
def select (s : Scanner) : Except ParseError Statement × Scanner :=
  let r := (Session.ofScanner s {}).select
  (r.1, r.2.scanner)

def condition (s : Scanner) : Except ParseError Expr × Scanner :=
  let r := (Session.ofScanner s {}).condition
  (r.1, r.2.scanner)

end Scanner

def SyntaxTree.Statement.ofSql (text : String) : Except ParseError Statement :=
  (Session.ofText text {}).parse.1

/-- The search condition that a text starts with. -/
def SyntaxTree.Expr.ofSql (text : String) : Except ParseError Expr :=
  (Session.ofText text {}).condition.1

end SelectSyntax
