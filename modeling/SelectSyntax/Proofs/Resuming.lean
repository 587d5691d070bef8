import Mathlib.Logic.Function.Iterate
import SelectSyntax.Proofs.DepthLimit

/-!
Going on from a later token. A scanner that is moved to a snapshot ahead of it has the rest of the snapshots
ahead; so a session that a rule has moved on is where the rule left it, and a scanner that has been advanced
has the last of the tokens of its text.
-/

set_option autoImplicit false
set_option relaxedAutoImplicit false

namespace SelectSyntax

open Text.Suffix (fromByte?)

theorem Text.Suffix.eq_append_of_fromByte? {n : Nat} {text rest : List Char}
    (cut : fromByte? n text = some rest) :
    ∃ front, front ++ rest = text ∧ n = (front.map Char.utf8Size).sum := by
  induction text generalizing n with
  | nil =>
      cases n with
      | zero => exact ⟨[], Option.some.inj cut ▸ rfl, rfl⟩
      | succ n => cases cut
  | cons c text ih =>
      cases n with
      | zero => exact ⟨[], (Option.some.inj cut).symm, rfl⟩
      | succ n =>
          rw [fromByte?] at cut
          split at cut
          · rename_i fits
            obtain ⟨front, same, size⟩ := ih cut
            refine ⟨c :: front, by rw [List.cons_append, same], ?_⟩
            rw [List.map_cons, List.sum_cons]
            omega
          · cases cut

namespace Scanner

/-- Ahead of a snapshot that lies ahead of a scanner are the snapshots after it. -/
theorem ahead_of_suffix {s : Scanner} {p : Snapshot} {more : List Snapshot} (suffix : p :: more <:+ s.ahead) :
    p.token.kind ≠ .start ∧ ({ s with state := p } : Scanner).ahead = more := by
  rw [ahead] at suffix
  cases cut : fromByte? s.state.read.offset s.input.toList with
  | some text =>
      have rest : s.rest = text := by rw [Scanner.rest, cut, Option.getD_some]
      rw [rest] at suffix
      obtain ⟨front, whole, place⟩ := Text.Suffix.eq_append_of_fromByte? cut
      obtain ⟨live, after, next, same⟩ :=
        Snapshot.follow_suffix (Nat.lt_succ_self _) whole place suffix
      refine ⟨live, ?_⟩
      rw [ahead, Scanner.rest, next, Option.getD_some]
      exact same.symm
  | none =>
      -- nothing is left to read, so that the only snapshot ahead is that of the end
      have rest : s.rest = [] := by rw [Scanner.rest, cut, Option.getD_none]
      rw [rest, List.length_nil, Snapshot.follow] at suffix
      split at suffix
      · cases List.suffix_nil.mp suffix
      · obtain ⟨rfl, rfl⟩ :=
          List.cons.inj (List.suffix_cons_iff.mp suffix |>.resolve_right (by simp [Snapshot.follow]))
        exact ⟨Lexeme.read_ne_start _, Snapshot.follow_of_terminal rfl _ _⟩

theorem primed_of_isPrimed {s : Scanner} (h : s.isPrimed = true) : s.primed = s := if_pos h

theorem isPrimed_primed (s : Scanner) : s.primed.isPrimed = true := by
  by_cases h : s.isPrimed = true
  · rwa [primed_of_isPrimed h]
  · have start : s.state.token.kind = .start := by simpa [isPrimed, current] using h
    have live : s.state.isTerminal = false := by
      rw [Snapshot.isTerminal, start]
      rfl
    have read : (Snapshot.scan s.state.read s.rest).1.token.kind ≠ .start := Lexeme.read_ne_start _
    rw [primed, if_neg h, advance, live]
    simpa [isPrimed, current] using read

/-- Ahead of a primed scanner moved to one of its snapshots are the snapshots after that. -/
theorem moved {s : Scanner} (primed : s.isPrimed = true) {p : Snapshot} {more : List Snapshot}
    (suffix : p :: more <:+ s.state :: s.ahead) :
    ({ s with state := p } : Scanner).isPrimed = true ∧ ({ s with state := p } : Scanner).ahead = more := by
  rcases List.suffix_cons_iff.mp suffix with here | later
  · obtain ⟨rfl, rfl⟩ := List.cons.inj here
    exact ⟨primed, rfl⟩
  · obtain ⟨live, ahead⟩ := ahead_of_suffix later
    exact ⟨by simpa [isPrimed, current] using live, ahead⟩

def snapshots (s : Scanner) : List Snapshot := s.primed.state :: s.primed.ahead

theorem tokenize_eq_map (s : Scanner) : s.tokenize = s.snapshots.map Snapshot.token := rfl

theorem snapshots_of_isPrimed {s : Scanner} (h : s.isPrimed = true) : s.snapshots = s.state :: s.ahead := by
  rw [snapshots, primed_of_isPrimed h]

@[simp] theorem snapshots_primed (s : Scanner) : s.primed.snapshots = s.snapshots := by
  rw [snapshots, primed_of_isPrimed s.isPrimed_primed]
  rfl

@[simp] theorem tokenize_primed (s : Scanner) : s.primed.tokenize = s.tokenize := by
  rw [tokenize_eq_map, snapshots_primed]
  rfl

/-- Past a token that is not terminal come the snapshots ahead. -/
theorem snapshots_advance_of_live {s : Scanner} (live : s.state.isTerminal = false) :
    s.advance.isPrimed = true ∧ s.advance.snapshots = s.ahead := by
  have next : s.advance = { s with state := (Snapshot.scan s.state.read s.rest).1 } := by
    rw [advance, live]
    rfl
  have ahead : s.ahead = (Snapshot.scan s.state.read s.rest).1 ::
      Snapshot.follow s.rest.length (Snapshot.scan s.state.read s.rest).1
        (Snapshot.scan s.state.read s.rest).2 := by
    rw [Scanner.ahead, Snapshot.follow, live]
    rfl
  obtain ⟨read, after⟩ := ahead_of_suffix ⟨[], ahead.symm⟩
  have still : s.advance.isPrimed = true := by
    rw [next]
    simpa [isPrimed, current] using read
  refine ⟨still, ?_⟩
  rw [snapshots_of_isPrimed still, next, after, ahead]

theorem snapshots_of_live {s : Scanner} (primed : s.isPrimed = true) (live : s.state.isTerminal = false) :
    s.advance.isPrimed = true ∧ s.snapshots = s.state :: s.advance.snapshots := by
  obtain ⟨still, next⟩ := snapshots_advance_of_live live
  exact ⟨still, by rw [next, snapshots_of_isPrimed primed]⟩

theorem isPrimed_advance (s : Scanner) : s.advance.isPrimed = true := by
  by_cases primed : s.isPrimed = true
  · cases terminal : s.state.isTerminal with
    | true => rwa [advance, if_pos terminal]
    | false => exact (snapshots_of_live primed terminal).1
  · rw [show s.advance = s.primed from (if_neg primed).symm]
    exact s.isPrimed_primed

/-- One token further are the snapshots after the first one, if there are any, of a scanner that has read a
token, and all of them otherwise. -/
theorem snapshots_advance (s : Scanner) : s.advance.snapshots <:+ s.snapshots := by
  by_cases primed : s.isPrimed = true
  · cases terminal : s.state.isTerminal with
    | true =>
        have stays : s.advance = s := by rw [advance, if_pos terminal]
        exact stays.symm ▸ List.suffix_rfl
    | false =>
        rw [(snapshots_of_live primed terminal).2]
        exact List.suffix_cons s.state _
  · have first : s.advance = s.primed := (if_neg primed).symm
    simp only [first, snapshots_primed, List.suffix_rfl]

theorem snapshots_iterate (s : Scanner) (n : Nat) : (advance^[n] s).snapshots <:+ s.snapshots := by
  induction n with
  | zero => exact List.suffix_rfl
  | succ n ih =>
      rw [Function.iterate_succ_apply']
      exact (snapshots_advance _).trans ih

end Scanner

/-- The tokens of a cursor among those of another one start at the index that leaves as many tokens. -/
theorem Parse.Cursor.Within.tokens_eq_drop {c d : Parse.Cursor} (h : c.Within d) :
    c.snapshots.map Snapshot.token =
      (d.snapshots.map Snapshot.token).drop (d.remaining - c.remaining) := by
  have drop := List.suffix_iff_eq_drop.mp h
  have lengths : d.snapshots.length - c.snapshots.length = d.remaining - c.remaining :=
    Nat.add_sub_add_right _ 1 _
  rw [lengths] at drop
  rw [← List.map_drop, ← drop]

namespace Session

open Parse

theorem isPrimed_ofScanner (scanner : Scanner) (config : Config) :
    (ofScanner scanner config).scanner.isPrimed = true :=
  scanner.isPrimed_primed

theorem tokenize_eq {s : Session} (primed : s.scanner.isPrimed = true) :
    s.scanner.tokenize = s.state.cursor.snapshots.map Snapshot.token := by
  rw [Scanner.tokenize_eq_map, Scanner.snapshots_of_isPrimed primed]
  rfl

theorem length_tokenize {s : Session} (primed : s.scanner.isPrimed = true) :
    s.scanner.tokenize.length = s.state.remaining + 1 := by
  rw [tokenize_eq primed, List.length_map]
  rfl

/-- A session that parsers have moved to a state is in that state. -/
theorem state_moveTo {s : Session} (primed : s.scanner.isPrimed = true) {t : State}
    (within : t.Within s.state) :
    (s.moveTo t).scanner.isPrimed = true ∧ (s.moveTo t).state = t := by
  obtain ⟨still, ahead⟩ := Scanner.moved primed within.cursor
  refine ⟨still, ?_⟩
  obtain ⟨⟨current, rest⟩, parameters, depth⟩ := t
  rw [moveTo, state]
  exact congrArg (fun rest => (⟨⟨current, rest⟩, parameters, depth⟩ : State)) ahead

theorem tokenize_moveTo_eq_drop {s : Session} (primed : s.scanner.isPrimed = true) {t : State}
    (within : t.Within s.state) :
    (s.moveTo t).scanner.tokenize = s.scanner.tokenize.drop (s.state.remaining - t.remaining) := by
  obtain ⟨still, there⟩ := state_moveTo primed within
  rw [tokenize_eq still, tokenize_eq primed, there]
  exact within.cursor.tokens_eq_drop

end Session

end SelectSyntax
