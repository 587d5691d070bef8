import SelectSyntax.Proofs.Partition
import SelectSyntax.Proofs.Resuming

/-!
Scanning on from any boundary of a text, whatever the token that a scanner is at. What comes next are slices of
the text that is scanned, and they are the tokens that the rest of this text has on its own, further on by as many
bytes as lie in front of it.
-/

set_option autoImplicit false
set_option relaxedAutoImplicit false

namespace SelectSyntax

open Text (IsSlice Place byteCount)
open Text.Suffix (fromByte?)

namespace Text

/-- A byte offset between two characters of a text or at one of its ends. -/
def IsBoundary (text : List Char) (n : Nat) : Prop := ∃ front rest, text = front ++ rest ∧ byteCount front = n

theorem isBoundary_iff {text : List Char} {n : Nat} : IsBoundary text n ↔ ∃ rest, fromByte? n text = some rest := by
  constructor
  · rintro ⟨front, rest, rfl, rfl⟩
    exact ⟨rest, Suffix.fromByte?_append front rest⟩
  · rintro ⟨rest, cut⟩
    obtain ⟨front, whole, size⟩ := Suffix.eq_append_of_fromByte? cut
    exact ⟨front, rest, whole.symm, size.symm⟩

instance (text : List Char) (n : Nat) : Decidable (IsBoundary text n) :=
  decidable_of_iff ((fromByte? n text).isSome = true) (Option.isSome_iff_exists.trans isBoundary_iff.symm)

theorem IsSlice.isBoundary_start {text part rest : List Char} {start stop : Nat}
    (h : IsSlice text start stop part rest) : IsBoundary text start := by
  obtain ⟨front, whole, size, _⟩ := h
  exact ⟨front, part ++ rest, by rw [whole, List.append_assoc], size⟩

theorem IsSlice.isBoundary_stop {text part rest : List Char} {start stop : Nat}
    (h : IsSlice text start stop part rest) : IsBoundary text stop := by
  obtain ⟨front, whole, _, size⟩ := h
  exact ⟨front ++ part, rest, whole, size⟩

end Text

open Text (IsBoundary isBoundary_iff)

/-- The token one is at, so many bytes further on in another text. -/
structure Token.Shifted (bytes : Nat) (t u : Token) : Prop where
  kind : t.kind = u.kind
  raw : t.raw = u.raw
  start : u.place.offset = bytes + t.place.offset
  stop : u.stop = bytes + t.stop

/-- Runs through one text from two places come to the same tokens, as far apart as the places. -/
theorem Snapshot.follow_shifted (n : Nat) {p q : Snapshot} {bytes : Nat} (text : List Char)
    (live : p.isTerminal = q.isTerminal) (apart : q.read.offset = bytes + p.read.offset) :
    List.Forall₂ (Token.Shifted bytes) ((follow n p text).map token) ((follow n q text).map token) := by
  induction n generalizing p q text with
  | zero => exact .nil
  | succ n ih =>
      rw [follow, follow, live]
      split
      · exact .nil
      · have places : ∀ front, (q.read.after front).offset = bytes + (p.read.after front).offset := by
          intro front
          rw [Text.Place.after_offset, Text.Place.after_offset, apart, Nat.add_assoc]
        refine .cons ⟨rfl, rfl, places _, ?_⟩ (ih _ rfl ?_)
        · simp only [scan, ← Text.Place.after_append, places]
        · simp only [scan, ← Text.Place.after_append, places]

/-- A snapshot on a part of a text that stands at a place, read up to the end of that part. -/
def Snapshot.Lies (place : Place) (text : List Char) (p : Snapshot) : Prop :=
  ∃ front rest, text = front ++ p.token.raw.toList ++ rest ∧ p.token.place = place.after front ∧
    p.read = place.after (front ++ p.token.raw.toList) ∧ p.token.stop = p.read.offset

theorem Snapshot.Lies.behind {place : Place} {front text : List Char} {p : Snapshot}
    (h : p.Lies (place.after front) text) : p.Lies place (front ++ text) := by
  obtain ⟨more, rest, rfl, start, read, stop⟩ := h
  refine ⟨front ++ more, rest, by simp, ?_, ?_, stop⟩
  · rw [start, Place.after_append]
  · rw [read, List.append_assoc, Place.after_append place]

theorem Snapshot.scan_lies (place : Place) (text : List Char) : (scan place text).1.Lies place text := by
  have whole := Lexeme.Trivia.split_append text
  rw [← Lexeme.read_append (Lexeme.Trivia.split text).2, ← List.append_assoc] at whole
  refine ⟨(Lexeme.Trivia.split text).1, (scan place text).2, ?_, rfl, ?_, rfl⟩
  · simpa [scan] using whole.symm
  · simp [scan, Place.after_append]

theorem Snapshot.follow_lies (n : Nat) (s : Snapshot) (text : List Char) :
    ∀ p ∈ follow n s text, p.Lies s.read text := by
  intro p mem
  obtain ⟨front, left, rfl, rfl⟩ := follow_scans n s text p mem
  exact (scan_lies _ left).behind

namespace Scanner

@[simp] theorem input_advance (s : Scanner) : s.advance.input = s.input := by
  unfold advance
  split <;> rfl

@[simp] theorem input_primed (s : Scanner) : s.primed.input = s.input := by
  unfold primed
  split
  · rfl
  · exact s.input_advance

theorem snapshots_of_start {s : Scanner} (start : s.isPrimed = false) : s.snapshots = s.ahead := by
  have kind : s.state.token.kind = .start := by simpa [isPrimed, current] using start
  have live : s.state.isTerminal = false := by
    rw [Snapshot.isTerminal, kind]
    rfl
  have first : s.advance = s.primed := (if_neg (by simp [start])).symm
  rw [← (snapshots_advance_of_live live).2, first, snapshots_primed]

theorem mem_snapshots {s : Scanner} {p : Snapshot} (mem : p ∈ s.snapshots) : p = s.state ∨ p ∈ s.ahead := by
  cases primed : s.isPrimed with
  | true =>
      rw [snapshots_of_isPrimed primed] at mem
      exact List.mem_cons.mp mem
  | false => exact Or.inr (snapshots_of_start primed ▸ mem)

/-- A scanner is advanced to the snapshot that it is at or to one ahead. -/
theorem advance_moves (s : Scanner) : ∃ p, (p = s.state ∨ p ∈ s.ahead) ∧ s.advance = { s with state := p } := by
  cases terminal : s.state.isTerminal with
  | true => exact ⟨s.state, Or.inl rfl, by rw [advance, if_pos terminal]⟩
  | false =>
      obtain ⟨primed, ahead⟩ := snapshots_advance_of_live terminal
      refine ⟨s.advance.state, Or.inr ?_, ?_⟩
      · rw [← ahead, snapshots_of_isPrimed primed]
        exact List.mem_cons_self
      · rw [advance, terminal]
        rfl

/-- Advancing again and again comes to the tokens of a scanner one by one. -/
theorem current_iterate {s : Scanner} (primed : s.isPrimed = true) {n : Nat} {t : Token}
    (token : s.tokenize[n]? = some t) : (advance^[n] s).current = t := by
  induction n generalizing s with
  | zero =>
      rw [tokenize_eq_map, snapshots_of_isPrimed primed] at token
      exact Option.some.inj token
  | succ n ih =>
      rw [Function.iterate_succ_apply]
      cases terminal : s.state.isTerminal with
      | false =>
          obtain ⟨still, next⟩ := snapshots_of_live primed terminal
          rw [tokenize_eq_map, next] at token
          exact ih still token
      | true =>
          rw [tokenize_eq_map, snapshots_of_isPrimed primed, ahead, Snapshot.follow_of_terminal terminal] at token
          cases token

theorem rest_eq {s : Scanner} {front left : List Char} (whole : s.input.toList = front ++ left)
    (place : s.state.read.offset = byteCount front) : s.rest = left := by
  rw [rest, whole, place, Text.Suffix.fromByte?_append, Option.getD_some]

/-- A snapshot is taken over if its offset is a boundary of the text, and refused otherwise. -/
theorem restore_eq (s : Scanner) (p : Snapshot) : s.restore p =
    if IsBoundary s.input.toList p.read.offset then .ok { s with state := p } else .error ⟨p.read.offset⟩ := by
  rw [restore]
  split
  · rename_i rest cut
    rw [if_pos (isBoundary_iff.mpr ⟨rest, cut⟩)]
  · rename_i nowhere
    rw [if_neg]
    rintro boundary
    obtain ⟨rest, cut⟩ := isBoundary_iff.mp boundary
    rw [nowhere] at cut
    cases cut

/-- A scanner that stands between two characters of its text, and whose next tokens are slices of it behind each of
which reading stands between two characters again. -/
structure Sound (s : Scanner) : Prop where
  here : IsBoundary s.input.toList s.state.read.offset
  slices : ∀ p ∈ s.ahead, p.token.stop = p.read.offset ∧
    ∃ rest, IsSlice s.input.toList p.token.place.offset p.token.stop p.token.raw.toList rest

theorem Sound.ahead {s : Scanner} (h : s.Sound) {p : Snapshot} (mem : p ∈ s.ahead) :
    IsBoundary s.input.toList p.read.offset := by
  obtain ⟨stop, rest, slice⟩ := h.slices p mem
  exact stop ▸ slice.isBoundary_stop

/-- Where a scanner stands between two characters of its text, it is sound, whatever its token. -/
theorem sound_of_isBoundary {s : Scanner} (h : IsBoundary s.input.toList s.state.read.offset) : s.Sound := by
  refine ⟨h, fun p mem => ?_⟩
  obtain ⟨front, left, whole, size⟩ := h
  rw [Scanner.ahead, rest_eq whole size.symm] at mem
  obtain ⟨gap, behind, rfl, start, read, stop⟩ := Snapshot.follow_lies _ _ _ p mem
  refine ⟨stop, behind, front ++ gap, by simp [whole], ?_, ?_⟩
  · rw [start, Place.after_offset, ← size, byteCount, List.map_append, List.sum_append]
  · rw [stop, read, Place.after_offset, ← size]
    simp only [byteCount, List.map_append, List.sum_append, Nat.add_assoc]

/-- Past a token that is not terminal come the tokens that the text from there on has on its own, further on by the
offset. -/
theorem tokenize_advance_shifted {s : Scanner} {front rest : List Char} (whole : s.input.toList = front ++ rest)
    (place : s.state.read.offset = byteCount front) (live : s.state.isTerminal = false) :
    List.Forall₂ (Token.Shifted (byteCount front)) (ofText (String.ofList rest)).tokenize s.advance.tokenize := by
  have only : (ofText (String.ofList rest)).input.toList = [] ++ rest := String.toList_ofList
  have alone : (ofText (String.ofList rest)).rest = rest := rest_eq only rfl
  rw [tokenize_eq_map, tokenize_eq_map, (snapshots_advance_of_live live).2, snapshots_of_start rfl,
    Scanner.ahead, Scanner.ahead, rest_eq whole place, alone]
  exact Snapshot.follow_shifted _ rest (live.symm ▸ rfl) (place.trans (Nat.add_zero _).symm)

end Scanner

end SelectSyntax
