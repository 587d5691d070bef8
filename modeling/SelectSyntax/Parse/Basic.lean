import SelectSyntax.Parse.Error
import SelectSyntax.Scanner

/-!
Parsers: functions on the tokens still to come, the number of parameters met so far, and the depth of
nesting. A parser that fails says where it failed and also how far it had moved on, since whoever runs it
goes on from there.
-/

set_option autoImplicit false
set_option relaxedAutoImplicit false

namespace SelectSyntax.Parse

open Token (Kind)

/-- The snapshot of the current token and those after it; the last one is terminal. -/
structure Cursor where
  current : Snapshot
  ahead : List Snapshot
  deriving DecidableEq, Repr

namespace Cursor

def advance (c : Cursor) : Cursor :=
  match c.ahead with
  | [] => c
  | next :: rest => ⟨next, rest⟩

def remaining (c : Cursor) : Nat := c.ahead.length

end Cursor

/-- What a parser changes: its place among the tokens, how many parameters it has numbered, and how many
levels of nesting are open. -/
structure State where
  cursor : Cursor
  parameters : Nat
  depth : Nat
  deriving DecidableEq, Repr

/-- What is rewound when a reading is abandoned. The depth is not: whoever opens a level closes it. -/
structure Checkpoint where
  cursor : Cursor
  parameters : Nat
  deriving DecidableEq, Repr

namespace State

def token (s : State) : Token := s.cursor.current.token

def kind (s : State) : Kind := s.token.kind

def advance (s : State) : State := { s with cursor := s.cursor.advance }

def checkpoint (s : State) : Checkpoint := ⟨s.cursor, s.parameters⟩

def restore (s : State) (saved : Checkpoint) : State :=
  { s with cursor := saved.cursor, parameters := saved.parameters }

end State

/-- A failure: its cause, and the tokens from the offending one on. -/
structure Failure where
  cause : Cause
  cursor : Cursor
  deriving DecidableEq, Repr

namespace Failure

def toError (f : Failure) : ParseError := ⟨f.cause, f.cursor.current.token⟩

/-- Of two failures the one found further on; the first where they are found at one token. -/
def further (first second : Failure) : Failure :=
  if first.cursor.remaining ≤ second.cursor.remaining then first else second

end Failure

abbrev Parser (α : Type) := EStateM Failure State α

def fail {α : Type} (cause : Cause) : Parser α := fun s => .error ⟨cause, s.cursor⟩ s

def unexpected {α : Type} (expected : List Kind) : Parser α := fail (.unexpected expected)

def token : Parser Token := fun s => .ok s.token s

def kind : Parser Kind := fun s => .ok s.kind s

def advance : Parser Unit := fun s => .ok () s.advance

def checkpoint : Parser Checkpoint := fun s => .ok s.checkpoint s

def restore (saved : Checkpoint) : Parser Unit := fun s => .ok () (s.restore saved)

/-- Takes the current token if a function of its kind has a value. -/
def take? {α : Type} (read : Kind → Option α) : Parser (Option α) := fun s =>
  match read s.kind with
  | some a => .ok (some a) s.advance
  | none => .ok none s

/-- Takes the current token if it has a kind; says whether it had. -/
def eat (k : Kind) : Parser Bool := fun s =>
  if s.kind = k then .ok true s.advance else .ok false s

def expect (k : Kind) : Parser Unit := fun s =>
  if s.kind = k then .ok () s.advance else unexpected [k] s

def identifier? : Parser (Option String) := fun s =>
  if s.kind = .identifier then .ok (some s.token.value) s.advance else .ok none s

def identifier : Parser String := do
  match ← identifier? with
  | some name => pure name
  | none => unexpected [.identifier]

def parameter : Parser Nat := fun s =>
  .ok (s.parameters + 1) { s.advance with parameters := s.parameters + 1 }

end SelectSyntax.Parse
