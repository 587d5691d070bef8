import Mathlib.Data.List.Forall2
import SelectSyntax.Proofs.Numbering
import SelectSyntax.Proofs.DepthLimit

/-!
Runs on tokens that match. A parser sees the kinds of the tokens ahead of it and the texts that identifiers,
strings, numbers and names of functions stand for. Two runs that see the same take the same way, whatever the
tokens look like and wherever they stand; and if more parameters were numbered before one of them, the numbers
that it gives are higher by as many.
-/

set_option autoImplicit false
set_option relaxedAutoImplicit false

namespace SelectSyntax

namespace Token

/-- The kinds of tokens whose text a tree takes over. -/
def Kind.hasValue : Kind → Bool
  | .identifier | .string | .number => true
  | .keyword k => k.isFunctionName
  | _ => false

/-- Tokens of one kind that stand for one text, where a tree takes it over. -/
def Matches (t t' : Token) : Prop :=
  t.kind = t'.kind ∧ (t.kind.hasValue = true → t.value = t'.value)

instance (t t' : Token) : Decidable (t.Matches t') := inferInstanceAs (Decidable (_ ∧ _))

end Token

namespace Parse

open Token (Kind)
open SyntaxTree (BinaryOp Expr Statement)

/-- Cursors with as many tokens each, of which those at one index match. -/
def Cursor.Matches (c c' : Cursor) : Prop :=
  List.Forall₂ Token.Matches (c.snapshots.map Snapshot.token) (c'.snapshots.map Snapshot.token)

namespace Cursor.Matches

variable {c c' : Cursor}

theorem current (h : c.Matches c') : c.current.token.Matches c'.current.token :=
  (List.forall₂_cons.mp h).1

theorem ahead (h : c.Matches c') :
    List.Forall₂ Token.Matches (c.ahead.map Snapshot.token) (c'.ahead.map Snapshot.token) :=
  (List.forall₂_cons.mp h).2

theorem remaining (h : c.Matches c') : c.remaining = c'.remaining := by
  have length := h.ahead.length_eq
  rwa [List.length_map, List.length_map] at length

theorem advance (h : c.Matches c') : c.advance.Matches c'.advance := by
  obtain ⟨p, ahead⟩ := c
  obtain ⟨p', ahead'⟩ := c'
  have length := h.remaining
  cases ahead with
  | nil =>
      obtain rfl : ahead' = [] := List.length_eq_zero_iff.mp length.symm
      exact h
  | cons q rest =>
      obtain ⟨q', rest', rfl⟩ := List.exists_cons_of_length_eq_add_one length.symm
      exact h.ahead

end Cursor.Matches

/-- States ahead of matching tokens, with so many more parameters numbered in the second one. -/
structure State.Tracks (k : Nat) (s s' : State) : Prop where
  tokens : s.cursor.Matches s'.cursor
  parameters : s'.parameters = s.parameters + k

namespace State.Tracks

variable {k : Nat} {s s' : State}

theorem kind (h : s.Tracks k s') : s'.kind = s.kind := h.tokens.current.1.symm

theorem value (h : s.Tracks k s') (has : s.kind.hasValue = true) : s'.token.value = s.token.value :=
  (h.tokens.current.2 has).symm

theorem advance (h : s.Tracks k s') : s.advance.Tracks k s'.advance := ⟨h.tokens.advance, h.parameters⟩

end State.Tracks

/-- Outcomes at matching tokens: the second value is the image of the first one, and the causes of failure are
the same. -/
inductive Tracked {α β : Type} (k : Nat) (g : α → β) :
    EStateM.Result Failure State α → EStateM.Result Failure State β → Prop
  | ok {a : α} {t t' : State} (states : t.Tracks k t') : Tracked k g (.ok a t) (.ok (g a) t')
  | error {cause : Cause} {c c' : Cursor} {t t' : State} (offending : c.Matches c')
      (states : t.Tracks k t') : Tracked k g (.error ⟨cause, c⟩ t) (.error ⟨cause, c'⟩ t')

theorem Tracked.same {α : Type} {k : Nat} {a : α} {t t' : State} (states : t.Tracks k t') :
    Tracked k id (.ok a t) (.ok a t') :=
  .ok states

/-- Parsers of which the second one, ahead of matching tokens and with so many more parameters numbered, does
what the first one does and gives the image of its value. -/
def Tracking {α β : Type} (k : Nat) (g : α → β) (p : Parser α) (p' : Parser β) : Prop :=
  ∀ s s', s.Tracks k s' → Tracked k g (p s) (p' s')

namespace Tracking

section
variable {α β γ δ : Type} {k : Nat} {g : α → β} {h : γ → δ} {p : Parser α} {p' : Parser β}

theorem pure {a : α} {b : β} (same : g a = b) : Tracking k g (pure a) (pure b) := by
  intro s s' tracks
  rw [← same]
  exact .ok tracks

theorem fail (cause : Cause) : Tracking k g (fail cause) (fail cause) :=
  fun _ _ tracks => .error tracks.tokens tracks

theorem unexpected (expected : List Kind) : Tracking k g (unexpected expected) (unexpected expected) :=
  .fail _

theorem bind {f : α → Parser γ} {f' : β → Parser δ} (first : Tracking k g p p')
    (rest : ∀ a, Tracking k h (f a) (f' (g a))) : Tracking k h (p >>= f) (p' >>= f') := by
  intro s s' tracks
  have outcomes := first s s' tracks
  generalize run : p s = r at outcomes
  generalize run' : p' s' = r' at outcomes
  cases outcomes with
  | @ok a t t' states =>
      -- the second run goes on with the image of the value
      rw [bind_of_ok run, bind_of_ok run']
      exact rest a t t' states
  | error offending states =>
      rw [bind_of_error run, bind_of_error run']
      exact .error offending states

theorem step {q q' : Parser α} {f : α → Parser γ} {f' : α → Parser δ} (first : Tracking k id q q')
    (rest : ∀ a, Tracking k h (f a) (f' a)) : Tracking k h (q >>= f) (q' >>= f') :=
  first.bind rest

theorem map {f : α → γ} {f' : β → δ} (first : Tracking k g p p') (commutes : ∀ a, h (f a) = f' (g a)) :
    Tracking k h (f <$> p) (f' <$> p') := by
  rw [map_eq_pure_bind, map_eq_pure_bind]
  exact first.bind fun a => .pure (commutes a)

theorem sized {f : Nat → Parser α} {f' : Nat → Parser β} (counts : ∀ n, Tracking k g (f n) (f' n)) :
    Tracking k g (fun s => f s.cursor.remaining s) (fun s => f' s.cursor.remaining s) := by
  intro s s' tracks
  show Tracked k g (f s.cursor.remaining s) (f' s'.cursor.remaining s')
  rw [← tracks.tokens.remaining]
  exact counts _ s s' tracks

end

section
variable {α β : Type} {k : Nat} {g : α → β}

theorem look {f : Kind → Parser α} {f' : Kind → Parser β} (rest : ∀ kind, Tracking k g (f kind) (f' kind)) :
    Tracking k g (kind >>= f) (kind >>= f') := by
  intro s s' tracks
  show Tracked k g (f s.kind s) (f' s'.kind s')
  rw [tracks.kind]
  exact rest _ s s' tracks

theorem token {f : Token → Parser α} {f' : Token → Parser β}
    (same : ∀ t t' : Token, t.Matches t' → f' t' = f' t) (rest : ∀ t, Tracking k g (f t) (f' t)) :
    Tracking k g (token >>= f) (token >>= f') := by
  intro s s' tracks
  show Tracked k g (f s.token s) (f' s'.token s')
  rw [same s.token s'.token tracks.tokens.current]
  exact rest _ s s' tracks

theorem advance : Tracking k id advance advance := fun _ _ tracks => .ok tracks.advance

theorem parameter : Tracking k (· + k) parameter parameter := by
  intro s s' tracks
  have number : s'.parameters + 1 = s.parameters + 1 + k := by
    rw [tracks.parameters]
    omega
  show Tracked k _ (.ok (s.parameters + 1) _) (.ok (s'.parameters + 1) _)
  rw [number]
  exact .ok ⟨tracks.tokens.advance, rfl⟩

theorem eat (kind : Kind) : Tracking k id (eat kind) (eat kind) := by
  intro s s' tracks
  by_cases there : s.kind = kind
  · rw [eat_of_kind there, eat_of_kind (tracks.kind.trans there)]
    exact .ok tracks.advance
  · rw [eat_of_ne there, eat_of_ne (tracks.kind ▸ there)]
    exact .ok tracks

theorem expect (kind : Kind) : Tracking k id (expect kind) (expect kind) := by
  intro s s' tracks
  by_cases there : s.kind = kind
  · rw [expect_of_kind there, expect_of_kind (tracks.kind.trans there)]
    exact .ok tracks.advance
  · rw [expect_of_ne there, expect_of_ne (tracks.kind ▸ there)]
    exact .error tracks.tokens tracks

theorem take? (read : Kind → Option α) : Tracking k id (take? read) (take? read) := by
  intro s s' tracks
  unfold Parse.take?
  rw [tracks.kind]
  cases read s.kind with
  | some a => exact .ok tracks.advance
  | none => exact .ok tracks

theorem identifier? : Tracking k id identifier? identifier? := by
  intro s s' tracks
  unfold Parse.identifier?
  rw [tracks.kind]
  by_cases there : s.kind = .identifier
  · rw [if_pos there, if_pos there, tracks.value (by rw [there]; rfl)]
    exact .ok tracks.advance
  · rw [if_neg there, if_neg there]
    exact .ok tracks

theorem identifier : Tracking k id identifier identifier := by
  apply step identifier?
  intro name
  cases name with
  | some name => exact .pure rfl
  | none => exact .unexpected _

/-- The test for `NULL` looks at the kinds of up to three tokens. -/
theorem isNull? : Tracking k id isNull? isNull? := by
  intro s s' tracks
  have second := tracks.advance
  have third := second.advance
  rw [isNull?_run, isNull?_run, tracks.kind, second.kind]
  by_cases is : s.kind = .keyword .IS
  · by_cases not : s.advance.kind = .keyword .NOT
    · by_cases null : s.advance.advance.kind = .keyword .NULL
      · simpa [is, not, third.kind, null] using Tracked.same third.advance
      · simpa [is, not, third.kind, null] using Tracked.same tracks
    · by_cases null : s.advance.kind = .keyword .NULL
      · simpa [is, second.kind, null] using Tracked.same third
      · simpa [is, not, second.kind, null] using Tracked.same tracks
  · simpa [is] using Tracked.same tracks

end

section
variable {α β : Type} {k : Nat} {g : α → β}

theorem many {item? : Parser (Option α)} {item?' : Parser (Option β)}
    (item : Tracking k (Option.map g) item? item?') :
    Tracking k (List.map g) (many item?) (many item?') := by
  refine .sized fun n => ?_
  induction n with
  | zero => exact .pure rfl
  | succ n ih =>
      apply bind item
      intro a
      cases a with
      | none => exact .pure rfl
      | some a => exact .bind ih fun _ => .pure rfl

variable {p : Parser α} {p' : Parser β}

theorem after? {kind : Kind} (h : Tracking k g p p') :
    Tracking k (Option.map g) (after? kind p) (after? kind p') := by
  apply step (eat _)
  intro taken
  cases taken with
  | true => exact .bind h fun _ => .pure rfl
  | false => exact .pure rfl

theorem separated {kind : Kind} (h : Tracking k g p p') :
    Tracking k (List.map g) (separated kind p) (separated kind p') :=
  .bind h fun _ => .bind (.many (.after? h)) fun _ => .pure rfl

theorem commaList (h : Tracking k g p p') : Tracking k (List.map g) (commaList p) (commaList p') :=
  .separated h

/-- Items grouped from the left, where the change passes on to the first phrase and to each item. -/
theorem fold {γ : Type} {f : β → γ → β} {g : β → β} {j : γ → γ} {p p' : Parser β}
    {item? item?' : Parser (Option γ)} (step : ∀ b c, f (g b) (j c) = g (f b c)) (h : Tracking k g p p')
    (items : Tracking k (Option.map j) item? item?') :
    Tracking k g
      (do
        let first ← p
        let rest ← Parse.many item?
        Pure.pure (rest.foldl f first))
      (do
        let first ← p'
        let rest ← Parse.many item?'
        Pure.pure (rest.foldl f first)) := by
  apply bind h
  intro first
  apply bind (many items)
  intro rest
  apply pure
  rw [List.foldl_map]
  exact (List.foldl_hom g fun b c => step b c).symm

theorem tail? {operator : Kind → Option BinaryOp} {p p' : Parser Expr} (h : Tracking k (Expr.shift k) p p') :
    Tracking k (Option.map (Prod.map id (Expr.shift k))) (tail? operator p) (tail? operator p') := by
  apply step (take? _)
  intro op
  cases op with
  | some op => exact .bind h fun _ => .pure rfl
  | none => exact .pure rfl

theorem chain {operator : Kind → Option BinaryOp} {p p' : Parser Expr} (h : Tracking k (Expr.shift k) p p') :
    Tracking k (Expr.shift k) (chain operator p) (chain operator p') :=
  .fold (fun _ _ => rfl) h (.tail? h)

theorem closed (h : Tracking k g p p') : Tracking k g (closed p) (closed p') :=
  .bind h fun _ => .step (.expect _) fun _ => .pure rfl

theorem enclosed (h : Tracking k g p p') : Tracking k g (enclosed p) (enclosed p') :=
  .step (.expect _) fun _ => .closed h

/-- Of two failures both runs keep the same one, since as many tokens follow it in both. -/
theorem prefer {q : Parser α} {q' : Parser β} (first : Tracking k g p p') (second : Tracking k g q q') :
    Tracking k g (prefer p q) (prefer p' q') := by
  intro s s' tracks
  have outcomes := first s s' tracks
  generalize run : p s = r at outcomes
  generalize run' : p' s' = r' at outcomes
  cases outcomes with
  | ok states =>
      rw [prefer_of_ok run, prefer_of_ok run']
      exact .ok states
  | @error cause c c' t t' offending states =>
      have rewound : (t.restore s.checkpoint).Tracks k (t'.restore s'.checkpoint) :=
        ⟨tracks.tokens, tracks.parameters⟩
      have others := second _ _ rewound
      simp only [Parse.prefer, run, run']
      generalize q (t.restore s.checkpoint) = u at others ⊢
      generalize q' (t'.restore s'.checkpoint) = u' at others ⊢
      cases others with
      | ok states => exact .ok states
      | @error cause₂ c₂ c₂' _ _ offending₂ states₂ =>
          unfold Failure.further
          dsimp only
          rw [← offending.remaining, ← offending₂.remaining]
          split
          · exact .error offending states₂
          · exact .error offending₂ states₂

theorem parenthesized {query query' : Parser Statement} (first : Tracking k (Statement.shift k) query query')
    (second : Tracking k g p p') :
    Tracking k (Sum.map (Statement.shift k) g) (parenthesized query p) (parenthesized query' p') := by
  apply step (expect _)
  intro _
  apply look
  intro kind
  have other : Tracking k (Sum.map (Statement.shift k) g) (Sum.inr <$> Parse.closed p)
      (Sum.inr <$> Parse.closed p') := second.closed.map fun _ => rfl
  split
  · exact .prefer (first.closed.map fun _ => rfl) other
  · exact other

end

end Tracking

end Parse

end SelectSyntax
