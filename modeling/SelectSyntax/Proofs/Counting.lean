import Mathlib.Data.List.DropRight
import SelectSyntax.Proofs.Family

/-!
Places counted directly. The line of a place is one more than the line feeds in front of it, and its column is one
more than the characters since the last of them; this is where scanners of one text stand, whatever has been done
with them, where their tokens start, and where errors point. In a text that is not too long 32 bits are enough.
-/

set_option autoImplicit false
set_option relaxedAutoImplicit false

namespace SelectSyntax

open Parse (ParseError)
open Text (Place byteCount)

namespace Text

/-- The place behind a front of a text, counted directly. -/
def Place.behind (front : List Char) : Place :=
  ⟨byteCount front, 1 + front.count '\n', 1 + (front.rtakeWhile (· != '\n')).length⟩

/-- Walking over the front of a text counts what stands in it. -/
theorem Place.after_start (front : List Char) : start.after front = behind front := by
  induction front using List.reverseRecOn with
  | nil => rfl
  | append_singleton front c ih =>
      rw [Place.after_append, ih, Place.after_cons, Place.after_nil, next, behind, behind, List.count_append,
        List.rtakeWhile_concat]
      by_cases feed : c = '\n'
      · simp [feed, byteCount]
        omega
      · simp [feed, byteCount]
        omega

theorem Place.behind_le (front : List Char) :
    (behind front).line ≤ 1 + front.length ∧ (behind front).column ≤ 1 + front.length :=
  ⟨Nat.add_le_add_left List.count_le_length 1, Nat.add_le_add_left (List.rtakeWhile_suffix _ front).length_le 1⟩

/-- The line and the column of a place in words of 32 bits, which start again from zero past their end. -/
structure Counters where
  line : UInt32
  column : UInt32
  deriving DecidableEq, Repr

namespace Counters

def start : Counters := ⟨1, 1⟩

def next (w : Counters) (c : Char) : Counters :=
  if c = '\n' then ⟨w.line + 1, 1⟩ else ⟨w.line, w.column + 1⟩

def after (w : Counters) (text : List Char) : Counters := text.foldl next w

/-- Words that have the line and the column of a place. -/
def Shows (w : Counters) (p : Place) : Prop := w.line.toNat = p.line ∧ w.column.toNat = p.column

theorem Shows.next {w : Counters} {p : Place} (h : w.Shows p) (line : p.line + 1 < 2 ^ 32)
    (column : p.column + 1 < 2 ^ 32) (c : Char) : (w.next c).Shows (p.next c) := by
  obtain ⟨sameLine, sameColumn⟩ := h
  unfold Counters.next Place.next
  split
  · refine ⟨?_, rfl⟩
    rw [UInt32.toNat_add, sameLine]
    exact Nat.mod_eq_of_lt line
  · refine ⟨sameLine, ?_⟩
    rw [UInt32.toNat_add, sameColumn]
    exact Nat.mod_eq_of_lt column

/-- No counter passes its end in a text of fewer than 2 ^ 32 - 1 characters. -/
theorem shows_behind (front : List Char) (short : front.length < 2 ^ 32 - 1) :
    (start.after front).Shows (Place.behind front) := by
  rw [← Place.after_start]
  induction front using List.reverseRecOn with
  | nil => exact ⟨rfl, rfl⟩
  | append_singleton front c ih =>
      rw [List.length_append, List.length_singleton] at short
      obtain ⟨line, column⟩ := Place.behind_le front
      rw [← Place.after_start] at line column
      rw [Counters.after, List.foldl_append, Place.after_append]
      exact (ih (by omega)).next (by omega) (by omega) c

end Counters

/-- A place between two characters of a text, or at one of its ends, counted directly, which is also what counters of
32 bits show there. -/
def Place.Counts (text : List Char) (p : Place) : Prop :=
  ∃ front rest, text = front ++ rest ∧ p = behind front ∧ (Counters.start.after front).Shows p

theorem Place.behind_counts {text front rest : List Char} (whole : text = front ++ rest)
    (short : text.length < 2 ^ 32 - 1) : (behind front).Counts text := by
  refine ⟨front, rest, whole, rfl, Counters.shows_behind front ?_⟩
  rw [whole, List.length_append] at short
  omega

end Text

open Text (Counters)

theorem Snapshot.Lies.counts {text : List Char} {p : Snapshot} (h : p.Lies Place.start text)
    (short : text.length < 2 ^ 32 - 1) : p.token.place.Counts text ∧ p.read.Counts text := by
  obtain ⟨front, rest, whole, start, read, _⟩ := h
  rw [Place.after_start] at start read
  have split : text = front ++ (p.token.raw.toList ++ rest) := by rw [whole, List.append_assoc]
  rw [start, read]
  exact ⟨Place.behind_counts split short, Place.behind_counts whole short⟩

namespace Scanner

/-- From a place in a text, scanning goes on through that text. -/
theorem lies_ahead {s : Scanner} (here : s.state.Lies Place.start s.input.toList) :
    ∀ p ∈ s.ahead, p.Lies Place.start s.input.toList := by
  intro p mem
  obtain ⟨front, rest, whole, _, read, _⟩ := here
  have size : s.state.read.offset = byteCount (front ++ s.state.token.raw.toList) := by
    rw [read, Place.after_start, Place.behind]
  rw [ahead, rest_eq whole size] at mem
  have lies := Snapshot.follow_lies _ _ _ p mem
  rw [read] at lies
  exact whole ▸ lies.behind

theorem lies_snapshots {s : Scanner} (here : s.state.Lies Place.start s.input.toList) :
    ∀ p ∈ s.snapshots, p.Lies Place.start s.input.toList := by
  intro p mem
  rcases mem_snapshots mem with rfl | ahead
  · exact here
  · exact lies_ahead here p ahead

end Scanner

theorem Session.error_snapshot {s : Scanner} {config : Config} {before : List Call} {c : Call} {e : ParseError}
    (run : (c.run ((ofScanner s config).after before)).1 = .error e) : ∃ p ∈ s.snapshots, e.found = p.token := by
  obtain ⟨f, t, rfl, _, failure, within, _⟩ := Call.run_error run
  have ahead := (failure.trans within.cursor).trans (after_within before (isPrimed_ofScanner s config)).cursor
  exact ⟨f.cursor.current, ahead.subset List.mem_cons_self, rfl⟩

namespace Family

variable {ι : Type}

/-- Every scanner is at a snapshot of the one text, and so are the snapshots that have been saved. -/
structure Shares (text : String) (f : Family ι) : Prop where
  input : ∀ i, (f.scanners i).input = text
  here : ∀ i, (f.scanners i).state.Lies Place.start text.toList
  saved : ∀ p ∈ f.saved, p.Lies Place.start text.toList

theorem Shares.snapshots {text : String} {f : Family ι} (h : Shares text f) (i : ι) :
    ∀ p ∈ (f.scanners i).snapshots, p.Lies Place.start text.toList := by
  rw [← h.input i]
  exact Scanner.lies_snapshots ((h.input i).symm ▸ h.here i)

variable [DecidableEq ι]

theorem Shares.put {text : String} {f : Family ι} (h : Shares text f) (i : ι) {p : Snapshot}
    (lies : p.Lies Place.start text.toList) : Shares text (f.put i { f.scanners i with state := p }) := by
  refine ⟨?_, ?_, h.saved⟩
  · exact (Function.forall_update_iff f.scanners fun _ s => s.input = text).mpr ⟨h.input i, fun j _ => h.input j⟩
  · exact (Function.forall_update_iff f.scanners fun _ s => s.state.Lies Place.start text.toList).mpr
      ⟨lies, fun j _ => h.here j⟩

theorem Shares.step {text : String} {f g : Family ι} (h : Shares text f) (step : Steps f g) : Shares text g := by
  cases step with
  | stay => exact h
  | forward i p there =>
      refine h.put i ?_
      rcases there with rfl | ahead
      · exact h.here i
      · have lies := Scanner.lies_ahead ((h.input i).symm ▸ h.here i) p ahead
        exact h.input i ▸ lies
  | save i =>
      refine ⟨h.input, h.here, fun p mem => ?_⟩
      rcases List.mem_append.mp mem with old | new
      · exact h.saved p old
      · exact List.mem_singleton.mp new ▸ h.here i
  | back i p saved _ => exact h.put i (h.saved p saved)

theorem run_shares (text : String) (operations : List (Operation ι)) :
    Shares text ((ofTexts fun _ : ι => text).run operations) := by
  refine run_induction ⟨fun _ => rfl, fun _ => ?_, by simp [ofTexts]⟩ (fun h step => h.step step) operations
  exact ⟨[], text.toList, rfl, rfl, rfl, rfl⟩

/-- Whatever has been done with scanners of one text of fewer than 2 ^ 32 - 1 characters, the places that they stand
at, those of their tokens and those of the errors that rules give on them are what counting finds in the text in front
of them, and what counters of 32 bits show there; no such counter passes its end anywhere in the text. -/
theorem run_counts (text : String) (short : text.length < 2 ^ 32 - 1) (operations : List (Operation ι)) (i : ι) :
    let s := ((ofTexts fun _ => text).run operations).scanners i
    s.position.Counts text.toList ∧ s.state.read.Counts text.toList ∧
    (∀ t ∈ s.tokenize, t.place.Counts text.toList) ∧
    (∀ (config : Config) (before : List Session.Call) (c : Session.Call) (e : ParseError),
      (c.run ((Session.ofScanner s config).after before)).1 = .error e → e.position.Counts text.toList) ∧
    ∀ front, front <+: text.toList → (Counters.start.after front).Shows (Place.behind front) := by
  intro s
  have shares : Shares text ((ofTexts fun _ => text).run operations) := run_shares text operations
  have snapshots := shares.snapshots i
  have few : text.toList.length < 2 ^ 32 - 1 := String.length_toList ▸ short
  have here := (shares.here i).counts few
  refine ⟨here.1, here.2, fun t mem => ?_, fun config before c e run => ?_,
    fun front initial => Counters.shows_behind front (Nat.lt_of_le_of_lt initial.length_le few)⟩
  · obtain ⟨p, there, rfl⟩ := List.mem_map.mp mem
    exact ((snapshots p there).counts few).1
  · obtain ⟨p, there, found⟩ := Session.error_snapshot run
    have counts := ((snapshots p there).counts few).1
    rwa [← found] at counts

/-- A scanner that has been brought back to the first token after a rule failed. The rule fails again on the fourth
line, behind a string and a comment that each hold a line feed and a line that ends with a carriage return. -/
theorem run_counts_restored :
    let text := "a = 'é\nü' /* \n */ and\r\n\tb in c"
    let operations : List (Operation Unit) := [.advance (), .save (), .rules () {} [.condition], .restore () 0]
    let s := ((ofTexts fun _ => text).run operations).scanners ()
    let e : ParseError := ⟨.unexpected [.leftParen], ⟨.identifier, "c", ⟨31, 4, 7⟩, 32⟩⟩
    text.length < 2 ^ 32 - 1 ∧ s.position = ⟨0, 1, 1⟩ ∧ s.position.Counts text.toList ∧
    (Session.Call.condition.run (Session.ofScanner s {})).1 = .error e ∧ e.position.Counts text.toList ∧
    Place.behind (text.toList.take 29) = ⟨31, 4, 7⟩ ∧
    (Counters.start.after (text.toList.take 29)).Shows ⟨31, 4, 7⟩ := by
  intro text operations s e
  have short : text.length < 2 ^ 32 - 1 := by decide +kernel
  have run : (Session.Call.condition.run (Session.ofScanner s {})).1 = .error e := by decide +kernel
  have front : Place.behind (text.toList.take 29) = ⟨31, 4, 7⟩ := by decide +kernel
  obtain ⟨here, _, _, errors, counters⟩ := run_counts text short operations ()
  refine ⟨short, by decide +kernel, here, run, errors {} [] .condition e run, front, ?_⟩
  exact front ▸ counters _ (List.take_prefix 29 text.toList)

end Family

end SelectSyntax
