import SelectSyntax.Lexeme.Trivia
import SelectSyntax.Lexeme.Read
import SelectSyntax.Text.Suffix
import SelectSyntax.Token.Basic

/-!
Scanners: a text and a snapshot of how far it has been read. Scanning forward from a snapshot gives
the finite run of snapshots up to the first terminal token, where a scanner stays.
-/

set_option autoImplicit false
set_option relaxedAutoImplicit false

namespace SelectSyntax

open Text (Place)
open Text.Suffix (fromByte?)

/-- How far a text has been read: the place past the current token, and that token. -/
structure Snapshot where
  read : Place
  token : Token
  deriving DecidableEq, Repr

namespace Snapshot

def initial : Snapshot := ⟨Place.start, Token.initial⟩

/-- The snapshot after the next token of the text that stands at a place, and the text left. -/
def scan (place : Place) (text : List Char) : Snapshot × List Char :=
  let gap := Lexeme.Trivia.split text
  let begin := place.after gap.1
  let lexeme := Lexeme.read gap.2
  let finish := begin.after lexeme.text
  (⟨finish, ⟨lexeme.kind, String.ofList lexeme.text, begin, finish.offset⟩⟩, lexeme.rest)

def isTerminal (s : Snapshot) : Bool := s.token.kind.isTerminal

def follow : Nat → Snapshot → List Char → List Snapshot
  | 0, _, _ => []
  | n + 1, s, text =>
      if s.isTerminal then []
      else
        let next := scan s.read text
        next.1 :: follow n next.1 next.2

end Snapshot

/-- A text with the snapshot that reading has come to. -/
structure Scanner where
  input : String
  state : Snapshot
  deriving DecidableEq, Repr

namespace Scanner

def ofText (input : String) : Scanner := ⟨input, Snapshot.initial⟩

def current (s : Scanner) : Token := s.state.token

def position (s : Scanner) : Place := s.current.place

def isPrimed (s : Scanner) : Bool := s.current.kind != .start

def rest (s : Scanner) : List Char := (fromByte? s.state.read.offset s.input.toList).getD []

/-- The snapshots that advancing goes through, up to the terminal one. Each token but the last takes
a character, so one step more than the characters left is enough. -/
def ahead (s : Scanner) : List Snapshot := Snapshot.follow (s.rest.length + 1) s.state s.rest

def advance (s : Scanner) : Scanner :=
  if s.state.isTerminal then s else { s with state := (Snapshot.scan s.state.read s.rest).1 }

def primed (s : Scanner) : Scanner := if s.isPrimed then s else s.advance

/-- All tokens from the current one, or from the first one if nothing has been read, up to the
terminal one. -/
def tokenize (s : Scanner) : List Token :=
  (s.primed.state :: s.primed.ahead).map Snapshot.token

structure ForeignSnapshot where
  offset : Nat
  deriving DecidableEq, Repr

def ForeignSnapshot.message (e : ForeignSnapshot) : String :=
  "scanner state at byte " ++ toString e.offset ++ " does not belong to this input"

/-- The scanner with another snapshot, which may come from a scanner of another text: it is taken over whenever
its offset falls between two characters of this one. The refusal is the assertion of debug builds; release builds
take every snapshot over unchecked. -/
def restore (s : Scanner) (snapshot : Snapshot) : Except ForeignSnapshot Scanner :=
  match fromByte? snapshot.read.offset s.input.toList with
  | some _ => .ok { s with state := snapshot }
  | none => .error ⟨snapshot.read.offset⟩

end Scanner

end SelectSyntax
