import Mathlib.Logic.Function.Basic
import SelectSyntax.Proofs.Boundaries
import SelectSyntax.Proofs.Location

/-!
Scanners that are used together. Whatever is done with scanners of several texts, and whichever snapshot of one of
them is restored in another, every scanner stands between two characters of its own text, and so does scanning on
from there. Only a snapshot whose offset falls inside a character of the text, or past its end, is refused.
-/

set_option autoImplicit false
set_option relaxedAutoImplicit false

namespace SelectSyntax

open Text (IsBoundary byteCount)
open Text.Suffix (fromByte?)

namespace Session

theorem input_after (calls : List Call) (s : Session) : (s.after calls).scanner.input = s.scanner.input := by
  induction calls generalizing s with
  | nil => rfl
  | cons c calls ih =>
      obtain ⟨t, _, moved⟩ := c.run_moves s
      have same : (c.run s).2.scanner.input = s.scanner.input := by rw [moved]; rfl
      exact (ih _).trans same

theorem after_moves (s : Scanner) (config : Config) (calls : List Call) :
    ∃ p, (p = s.state ∨ p ∈ s.ahead) ∧
      ((ofScanner s config).after calls).scanner = { s with state := p } := by
  have within := after_within calls (isPrimed_ofScanner s config)
  have input := (input_after calls (ofScanner s config)).trans s.input_primed
  refine ⟨_, Scanner.mem_snapshots (within.cursor.subset List.mem_cons_self), ?_⟩
  exact congrArg (Scanner.mk · _) input

end Session

/-- Where scanning on cuts the text of a scanner, or comes back to when rules give a reading up: where it stands, and
before and behind every token ahead. -/
def Scanner.cuts (s : Scanner) : List Nat :=
  s.state.read.offset :: s.ahead.flatMap fun p => [p.token.place.offset, p.read.offset]

/-- The first of these offsets that cuts nowhere. -/
def Scanner.badCut? (s : Scanner) : Option Nat := s.cuts.find? fun n => (fromByte? n s.input.toList).isNone

theorem Scanner.Sound.badCut?_eq_none {s : Scanner} (h : s.Sound) : s.badCut? = none := by
  refine List.find?_eq_none.mpr fun n mem => ?_
  have boundary : IsBoundary s.input.toList n := by
    rcases List.mem_cons.mp mem with rfl | later
    · exact h.here
    · obtain ⟨p, ahead, cut⟩ := List.mem_flatMap.mp later
      rcases List.mem_cons.mp cut with rfl | cut
      · obtain ⟨_, _, slice⟩ := h.slices p ahead
        exact slice.isBoundary_start
      · exact List.mem_singleton.mp cut ▸ h.ahead ahead
  obtain ⟨rest, cut⟩ := Text.isBoundary_iff.mp boundary
  simp [cut]

/-- Scanners, each with a text of its own, and the snapshots saved from any of them so far. -/
structure Family (ι : Type) where
  scanners : ι → Scanner
  saved : List Snapshot

namespace Family

/-- What may be done with one of the scanners: it is advanced, its snapshot is saved, a saved one is restored, a copy
of it is tokenized, or rules are run through it. -/
inductive Operation (ι : Type) where
  | advance (i : ι)
  | save (i : ι)
  | restore (i : ι) (k : Nat)
  | tokenize (i : ι)
  | rules (i : ι) (config : Config) (calls : List Session.Call)

/-- Why an operation fails: the text is cut where it cannot be, or a snapshot is refused. -/
inductive Refusal where
  | cut (offset : Nat)
  | foreign (e : Scanner.ForeignSnapshot)
  deriving DecidableEq, Repr

variable {ι : Type}

def ofTexts (inputs : ι → String) : Family ι := ⟨fun i => Scanner.ofText (inputs i), []⟩

/-- The family that comes of scanning on, if the text of the scanner can be cut wherever that cuts it. -/
def scanning (f : Family ι) (i : ι) (next : Family ι) : Except Refusal Unit × Family ι :=
  match (f.scanners i).badCut? with
  | some n => (.error (.cut n), f)
  | none => (.ok (), next)

theorem scanning_of_sound {f : Family ι} {i : ι} (h : (f.scanners i).Sound) (next : Family ι) :
    f.scanning i next = (.ok (), next) := by
  rw [scanning, h.badCut?_eq_none]

/-- Every scanner has the text that it was made for, and stands between two characters of it. -/
def Stands (inputs : ι → String) (f : Family ι) : Prop :=
  ∀ i, (f.scanners i).input = inputs i ∧ IsBoundary (inputs i).toList (f.scanners i).state.read.offset

theorem Stands.sound {inputs : ι → String} {f : Family ι} (h : Stands inputs f) (i : ι) : (f.scanners i).Sound := by
  obtain ⟨input, boundary⟩ := h i
  exact Scanner.sound_of_isBoundary (input ▸ boundary)

variable [DecidableEq ι]

/-- The family with another scanner in the place of one. -/
def put (f : Family ι) (i : ι) (s : Scanner) : Family ι := { f with scanners := Function.update f.scanners i s }

/-- One operation. There is nothing to restore where fewer snapshots have been saved. -/
def step (f : Family ι) : Operation ι → Except Refusal Unit × Family ι
  | .advance i => f.scanning i (f.put i (f.scanners i).advance)
  | .save i => (.ok (), { f with saved := f.saved ++ [(f.scanners i).state] })
  | .restore i k =>
      match f.saved[k]? with
      | none => (.ok (), f)
      | some p =>
          match (f.scanners i).restore p with
          | .ok s => (.ok (), f.put i s)
          | .error e => (.error (.foreign e), f)
  | .tokenize i => f.scanning i f
  | .rules i config calls =>
      f.scanning i (f.put i ((Session.ofScanner (f.scanners i) config).after calls).scanner)

/-- The family after operations one after another, whichever of them failed. -/
def run (f : Family ι) (operations : List (Operation ι)) : Family ι :=
  operations.foldl (fun f o => (f.step o).2) f

/-- What an operation can do to a family. -/
inductive Steps (f : Family ι) : Family ι → Prop where
  | stay : Steps f f
  | forward (i : ι) (p : Snapshot) (there : p = (f.scanners i).state ∨ p ∈ (f.scanners i).ahead) :
      Steps f (f.put i { f.scanners i with state := p })
  | save (i : ι) : Steps f { f with saved := f.saved ++ [(f.scanners i).state] }
  | back (i : ι) (p : Snapshot) (saved : p ∈ f.saved)
      (fits : IsBoundary (f.scanners i).input.toList p.read.offset) :
      Steps f (f.put i { f.scanners i with state := p })

theorem scanning_steps {f : Family ι} {i : ι} {next : Family ι} (h : Steps f next) :
    Steps f (f.scanning i next).2 := by
  unfold scanning
  split
  · exact .stay
  · exact h

theorem step_steps (f : Family ι) (o : Operation ι) : Steps f (f.step o).2 := by
  cases o with
  | advance i =>
      obtain ⟨p, there, moved⟩ := (f.scanners i).advance_moves
      refine scanning_steps ?_
      rw [moved]
      exact .forward i p there
  | save i => exact .save i
  | restore i k =>
      cases found : f.saved[k]? with
      | none =>
          simp only [step, found]
          exact .stay
      | some p =>
          simp only [step, found, Scanner.restore_eq]
          split_ifs with fits
          · exact .back i p (List.mem_of_getElem? found) fits
          · exact .stay
  | tokenize i => exact scanning_steps .stay
  | rules i config calls =>
      obtain ⟨p, there, moved⟩ := Session.after_moves (f.scanners i) config calls
      refine scanning_steps ?_
      rw [moved]
      exact .forward i p there

theorem run_induction {P : Family ι → Prop} {f : Family ι} (first : P f)
    (keeps : ∀ {g h : Family ι}, P g → Steps g h → P h) (operations : List (Operation ι)) : P (f.run operations) := by
  induction operations generalizing f with
  | nil => exact first
  | cons o operations ih => exact ih (keeps first (f.step_steps o))

theorem Stands.put {inputs : ι → String} {f : Family ι} (h : Stands inputs f) (i : ι) {p : Snapshot}
    (boundary : IsBoundary (f.scanners i).input.toList p.read.offset) :
    Stands inputs (f.put i { f.scanners i with state := p }) := by
  refine (Function.forall_update_iff f.scanners fun j s =>
    s.input = inputs j ∧ IsBoundary (inputs j).toList s.state.read.offset).mpr ⟨⟨(h i).1, ?_⟩, fun j _ => h j⟩
  exact (h i).1 ▸ boundary

theorem Steps.stands {inputs : ι → String} {f g : Family ι} (step : Steps f g) (h : Stands inputs f) :
    Stands inputs g := by
  cases step with
  | stay | save i => exact h
  | forward i p there =>
      refine h.put i ?_
      rcases there with rfl | ahead
      · exact (h.sound i).here
      · exact (h.sound i).ahead ahead
  | back i p _ fits => exact h.put i fits

theorem run_stands (inputs : ι → String) (operations : List (Operation ι)) :
    Stands inputs ((ofTexts inputs).run operations) :=
  run_induction (fun _ => ⟨rfl, [], _, rfl, rfl⟩) (fun h step => step.stands h) operations

/-- Where the scanners are sound, nothing fails but to restore a snapshot whose offset is no boundary. -/
theorem step_error_iff {f : Family ι} (sound : ∀ i, (f.scanners i).Sound) (o : Operation ι) (e : Refusal) :
    (f.step o).1 = .error e ↔ ∃ i k p, o = .restore i k ∧ f.saved[k]? = some p ∧
      ¬IsBoundary (f.scanners i).input.toList p.read.offset ∧ e = .foreign ⟨p.read.offset⟩ := by
  cases o with
  | advance i | tokenize i | rules i _ _ => simp [step, scanning_of_sound (sound i)]
  | save i => simp [step]
  | restore i k =>
      cases found : f.saved[k]? with
      | none => simp [step, found]
      | some p =>
          by_cases fits : IsBoundary (f.scanners i).input.toList p.read.offset
          · simp [step, found, Scanner.restore_eq, fits]
          · simp [step, found, Scanner.restore_eq, fits, eq_comm]

theorem step_of_error {f : Family ι} (sound : ∀ i, (f.scanners i).Sound) {o : Operation ι} {e : Refusal}
    (fails : (f.step o).1 = .error e) : (f.step o).2 = f := by
  obtain ⟨i, k, p, rfl, found, unfit, rfl⟩ := (step_error_iff sound o e).mp fails
  simp [step, found, Scanner.restore_eq, unfit]

theorem step_restore {f : Family ι} {i : ι} {k : Nat} {p : Snapshot} (found : f.saved[k]? = some p)
    (fits : IsBoundary (f.scanners i).input.toList p.read.offset) :
    f.step (.restore i k) = (.ok (), f.put i { f.scanners i with state := p }) := by
  simp [step, found, Scanner.restore_eq, fits]

/-- Whatever has been done with scanners of several texts, each of them stands between two characters of its own
text, and what it scans next are slices of that text. Nothing fails but to restore a snapshot whose offset is no
boundary of the text, and that leaves everything as it was. Past a snapshot that has been restored, unless its token
is terminal, come the tokens that the text from its offset on has on its own, further on by that offset. -/
theorem run_safe (inputs : ι → String) (operations : List (Operation ι)) :
    let f := (ofTexts inputs).run operations
    (∀ i, (f.scanners i).input = inputs i ∧ (f.scanners i).Sound) ∧
    (∀ o e, (f.step o).1 = .error e ↔ ∃ i k p, o = .restore i k ∧ f.saved[k]? = some p ∧
      ¬IsBoundary (inputs i).toList p.read.offset ∧ e = .foreign ⟨p.read.offset⟩) ∧
    (∀ o e, (f.step o).1 = .error e → (f.step o).2 = f) ∧
    ∀ i k p, f.saved[k]? = some p → (f.step (.restore i k)).1 = .ok () →
      let s := (f.step (.restore i k)).2.scanners i
      s = ⟨inputs i, p⟩ ∧ (p.isTerminal = false → ∃ front rest, (inputs i).toList = front ++ rest ∧
        byteCount front = p.read.offset ∧
        List.Forall₂ (Token.Shifted p.read.offset) (Scanner.ofText (String.ofList rest)).tokenize
          s.advance.tokenize ∧
        ∀ n t, s.advance.tokenize[n]? = some t → (Scanner.advance^[n + 1] s).current = t) := by
  intro f
  have stands : Stands inputs f := run_stands inputs operations
  have sound := stands.sound
  have fails := step_error_iff sound
  simp only [(stands _).1] at fails
  refine ⟨fun i => ⟨(stands i).1, sound i⟩, fails, fun o e => step_of_error sound, fun i k p found accepted => ?_⟩
  have fits : IsBoundary (inputs i).toList p.read.offset := by
    by_contra unfit
    have refused := (fails (.restore i k) _).mpr ⟨i, k, p, rfl, found, unfit, rfl⟩
    rw [accepted] at refused
    cases refused
  have restored : (f.step (.restore i k)).2.scanners i = ⟨inputs i, p⟩ := by
    rw [step_restore found ((stands i).1.symm ▸ fits)]
    exact (Function.update_self _ _ _).trans (congrArg (Scanner.mk · p) (stands i).1)
  refine ⟨restored, fun live => ?_⟩
  rw [restored]
  obtain ⟨front, rest, whole, size⟩ := fits
  refine ⟨front, rest, whole, size, ?_, fun n t token => ?_⟩
  · exact size ▸ Scanner.tokenize_advance_shifted whole size.symm live
  · exact Scanner.current_iterate (Scanner.snapshots_advance_of_live live).1 token

/-- Two texts, and two snapshots of the second one: the first of these falls inside a character of the first text and
is refused there, the second one, to which a rule has moved the scanner, falls between two. -/
theorem run_safe_foreign :
    let inputs : Bool → String := fun i => if i then "x, [y]" else "é <= 'ü'"
    let f := (ofTexts inputs).run [.advance true, .save true, .rules true {} [.condition], .save true]
    let p : Snapshot := ⟨⟨1, 1, 2⟩, ⟨.identifier, "x", ⟨0, 1, 1⟩, 1⟩⟩
    let q : Snapshot := ⟨⟨2, 1, 3⟩, ⟨.comma, ",", ⟨1, 1, 2⟩, 2⟩⟩
    let s := (f.step (.restore false 1)).2.scanners false
    f.saved = [p, q] ∧ (f.step (.restore false 1)).1 = .ok () ∧
    (f.step (.restore false 0)).1 = .error (.foreign ⟨1⟩) ∧ (f.step (.restore false 0)).2 = f ∧
    (f.scanners false).Sound ∧ s = ⟨"é <= 'ü'", q⟩ ∧ s.advance.tokenize.map Token.raw = ["<=", "'ü'", ""] ∧
    (∃ front rest, "é <= 'ü'".toList = front ++ rest ∧ byteCount front = 2 ∧
      List.Forall₂ (Token.Shifted 2) (Scanner.ofText (String.ofList rest)).tokenize s.advance.tokenize) := by
  intro inputs f p q s
  have saved : f.saved = [p, q] := by decide +kernel
  have accepted : (f.step (.restore false 1)).1 = .ok () := by decide +kernel
  have inside : ¬IsBoundary (inputs false).toList p.read.offset := by decide +kernel
  obtain ⟨sound, fails, unchanged, restores⟩ :=
    run_safe inputs [.advance true, .save true, .rules true {} [.condition], .save true]
  have refused := (fails (.restore false 0) (.foreign ⟨1⟩)).mpr
    ⟨false, 0, p, rfl, (congrArg (·[0]?) saved).trans rfl, inside, rfl⟩
  obtain ⟨there, next⟩ := restores false 1 q ((congrArg (·[1]?) saved).trans rfl) accepted
  obtain ⟨front, rest, whole, size, shifted, _⟩ := next rfl
  exact ⟨saved, accepted, refused, unchanged _ _ refused, (sound false).2, there, by decide +kernel,
    front, rest, whole, size, shifted⟩

end Family

end SelectSyntax
