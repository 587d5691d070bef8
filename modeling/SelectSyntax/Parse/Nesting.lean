import SelectSyntax.Parse.Condition
import SelectSyntax.Parse.Query

/-!
Nesting. Each construct opens a level, unless as many are open as a limit allows, and closes it again
whether it is read or not.
-/

set_option autoImplicit false
set_option relaxedAutoImplicit false

namespace SelectSyntax.Parse

namespace State

def enter (s : State) : State := { s with depth := s.depth + 1 }

def leave (s : State) : State := { s with depth := s.depth - 1 }

end State

def closeLevel {α : Type} : EStateM.Result Failure State α → EStateM.Result Failure State α
  | .ok a t => .ok a t.leave
  | .error e t => .error e t.leave

/-- A parser one level further in. It fails at its first token if as many levels are open as may be. -/
def nested {α : Type} (limit : Option Nat) (inside : Parser α) : Parser α := fun s =>
  match limit.filter fun m => m ≤ s.depth with
  | some m => fail (.tooDeep m) s
  | none => closeLevel (inside s.enter)

/-- The rule of each construct, over the constructs one level further in. -/
def rule (inner : Inner) : Inner
  | .query => query inner
  | .body => body inner
  | .condition => condition inner
  | .negated => negation inner
  | .signed => primary inner (row inner)
  | .table => table inner

/-- The parser of each construct under a limit on nesting, in so many turns of the recursion. Each turn
takes a token before the next one, so that no more of them are used than there are tokens from the
current one on. -/
def constructs (limit : Option Nat) : Nat → Inner
  | 0 => fun _ s => fail (.tooDeep s.depth) s
  | turns + 1 => fun e => nested limit (rule (constructs limit turns) e)

end SelectSyntax.Parse
