import SelectSyntax.Session

/-!
Cursors that end. Of the snapshots of a cursor the last one, and no other, is terminal; the cursors
reached from it by advancing are the suffixes of that run.
-/

set_option autoImplicit false
set_option relaxedAutoImplicit false

namespace SelectSyntax.Parse

namespace Cursor

def snapshots (c : Cursor) : List Snapshot := c.current :: c.ahead

/-- A run of snapshots of which the last one, and no other, is terminal. -/
def Ends : List Snapshot → Prop
  | [] => False
  | [s] => s.isTerminal = true
  | s :: t :: rest => s.isTerminal = false ∧ Ends (t :: rest)

/-- A cursor whose run of snapshots ends with its first terminal one. -/
def Complete (c : Cursor) : Prop := Ends c.snapshots

/-- A cursor that another one comes to by advancing. -/
def Within (c d : Cursor) : Prop := c.snapshots <:+ d.snapshots

theorem Within.refl (c : Cursor) : c.Within c := List.suffix_rfl

theorem Within.trans {c d e : Cursor} (first : c.Within d) (second : d.Within e) : c.Within e :=
  List.IsSuffix.trans first second

theorem Within.remaining_le {c d : Cursor} (h : c.Within d) : c.remaining ≤ d.remaining := by
  have length := h.length_le
  simpa [snapshots, remaining] using length

theorem Within.of_remaining_le {c c' d : Cursor} (h : c.Within d) (h' : c'.Within d)
    (le : c.remaining ≤ c'.remaining) : c.Within c' := by
  refine List.suffix_of_suffix_length_le h h' ?_
  simpa [snapshots, remaining] using le

/-- Two cursors among the snapshots of a third one, with as many tokens left, are the same. -/
theorem Within.eq_of_remaining {c c' d : Cursor} (h : c.Within d) (h' : c'.Within d)
    (same : c.remaining = c'.remaining) : c = c' := by
  have length : c.snapshots.length = c'.snapshots.length := congrArg (· + 1) same
  have suffix := h.of_remaining_le h' (Nat.le_of_eq same)
  obtain ⟨current, ahead⟩ := List.cons.inj (suffix.eq_of_length length)
  cases c
  cases c'
  exact congr (congrArg Cursor.mk current) ahead

private theorem ends_of_suffix {run rest : List Snapshot} (nonempty : rest ≠ [])
    (h : rest <:+ run) (ends : Ends run) : Ends rest := by
  induction run with
  | nil => exact absurd (List.suffix_nil.mp h) nonempty
  | cons s run ih =>
      rcases List.suffix_cons_iff.mp h with rfl | h
      · exact ends
      · cases run with
        | nil => exact absurd (List.suffix_nil.mp h) nonempty
        | cons t run => exact ih h ends.2

theorem Within.complete {c d : Cursor} (h : c.Within d) (complete : d.Complete) : c.Complete :=
  ends_of_suffix (by simp [snapshots]) h complete

theorem advance_within (c : Cursor) : c.advance.Within c := by
  rcases c with ⟨s, _ | ⟨t, rest⟩⟩
  · exact Within.refl _
  · exact List.suffix_cons _ _

theorem Complete.isTerminal_iff {c : Cursor} (h : c.Complete) :
    c.current.isTerminal = true ↔ c.ahead = [] := by
  rcases c with ⟨s, _ | ⟨t, rest⟩⟩
  · exact ⟨fun _ => rfl, fun _ => h⟩
  · simp [h.1]

theorem Complete.snapshots_advance {c : Cursor} (h : c.Complete) (live : c.current.isTerminal = false) :
    c.snapshots = c.current :: c.advance.snapshots := by
  rcases c with ⟨s, _ | ⟨t, rest⟩⟩
  · have terminal : s.isTerminal = true := h
    simp [terminal] at live
  · rfl

theorem Complete.remaining_advance {c : Cursor} (h : c.Complete)
    (live : c.current.isTerminal = false) : c.advance.remaining + 1 = c.remaining := by
  rcases c with ⟨s, _ | ⟨t, rest⟩⟩
  · have terminal : s.isTerminal = true := h
    simp [terminal] at live
  · rfl

end Cursor

namespace State

def Complete (s : State) : Prop := s.cursor.Complete

def remaining (s : State) : Nat := s.cursor.remaining

/-- A state that another one comes to by advancing at one depth, whatever parameters were numbered. -/
structure Within (s t : State) : Prop where
  cursor : s.cursor.Within t.cursor
  depth : s.depth = t.depth

theorem Within.refl (s : State) : s.Within s := ⟨Cursor.Within.refl _, rfl⟩

theorem Within.trans {s t u : State} (first : s.Within t) (second : t.Within u) : s.Within u :=
  ⟨first.cursor.trans second.cursor, first.depth.trans second.depth⟩

theorem Within.remaining_le {s t : State} (h : s.Within t) : s.remaining ≤ t.remaining :=
  h.cursor.remaining_le

theorem Within.complete {s t : State} (h : s.Within t) (complete : t.Complete) : s.Complete :=
  h.cursor.complete complete

theorem advance_within (s : State) : s.advance.Within s := ⟨Cursor.advance_within _, rfl⟩

theorem Within.numbered {s t : State} (h : s.Within t) (n : Nat) :
    { s with parameters := n }.Within t :=
  ⟨h.cursor, h.depth⟩

theorem restore_of_depth {s t : State} (h : t.depth = s.depth) : t.restore s.checkpoint = s := by
  cases s
  cases h
  rfl

theorem Within.restore {s t : State} (h : t.Within s) : t.restore s.checkpoint = s :=
  restore_of_depth h.depth

theorem Complete.remaining_succ {s : State} (h : s.Complete)
    (live : s.kind.isTerminal = false) : s.advance.remaining + 1 = s.remaining :=
  Cursor.Complete.remaining_advance h live

theorem Complete.remaining_advance {s : State} (h : s.Complete)
    (live : s.kind.isTerminal = false) : s.advance.remaining < s.remaining :=
  Nat.lt_of_succ_le (Nat.le_of_eq (h.remaining_succ live))

end State

namespace Failure

def TooDeep (f : Failure) : Prop := ∃ limit, f.cause = .tooDeep limit

theorem kind_toError_eq_nestingTooDeep {f : Failure} : f.toError.kind = .nestingTooDeep ↔ f.TooDeep := by
  unfold toError ParseError.kind TooDeep
  cases f.cause with
  | unexpected expected => cases f.cursor.current.token.kind <;> simp
  | notAllowed what => simp
  | tooDeep limit => simp

/-- The number of tokens after the offending one. -/
def remaining (f : Failure) : Nat := f.cursor.remaining

theorem further_eq_or (f g : Failure) :
    (f.further g = f ∧ f.remaining ≤ g.remaining) ∨
      (f.further g = g ∧ g.remaining < f.remaining) := by
  unfold further remaining
  split
  · exact Or.inl ⟨rfl, by assumption⟩
  · exact Or.inr ⟨rfl, by omega⟩

end Failure

end SelectSyntax.Parse
