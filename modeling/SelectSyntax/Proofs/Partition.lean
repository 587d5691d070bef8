import Mathlib.Data.List.Chain
import SelectSyntax.Proofs.Lexing

/-!
Scanning loses nothing. The tokens of a text are slices of it in their order, with nothing between them but
blanks and comments, and up to the end of the text where no lexeme is malformed.
-/

set_option autoImplicit false
set_option relaxedAutoImplicit false

namespace SelectSyntax

open Text (Place)
open Text.CharClass (isBlank isBlank_iff)

namespace Lexeme.Trivia

/-- Blanks and comments in front of a rest of a text. The blanks are the space, the tab, the carriage return, the
line feed and the form feed. A line comment goes up to a line feed, which is not part of it, or to the end of the
text; a block comment goes up to the first `*/` after its opening. -/
inductive IsGap : List Char → List Char → Prop where
  | nil (rest : List Char) : IsGap [] rest
  | blank {c : Char} {gap rest : List Char} (blank : c ∈ [' ', '\t', '\r', '\n', '\x0c'])
      (h : IsGap gap rest) : IsGap (c :: gap) rest
  | line {body gap rest : List Char} (within : '\n' ∉ body) (ends : Stops (· != '\n') (gap ++ rest))
      (h : IsGap gap rest) : IsGap ('-' :: '-' :: (body ++ gap)) rest
  | block {body gap rest : List Char} (within : ¬['*', '/'] <:+: body) (h : IsGap gap rest) :
      IsGap ('/' :: '*' :: (body ++ '*' :: '/' :: gap)) rest

mutual

theorem split_isGap (text : List Char) : IsGap (split text).1 (split text).2 := by
  match text with
  | [] => exact .nil []
  | [c] =>
      unfold split
      split
      · rename_i blank
        exact .blank (isBlank_iff.mp blank) (.nil [])
      · exact .nil [c]
  | c :: d :: text =>
      unfold split
      by_cases blank : isBlank c = true
      · rw [if_pos blank]
        exact .blank (isBlank_iff.mp blank) (split_isGap (d :: text))
      · rw [if_neg blank]
        split
        · rename_i opens
          obtain ⟨rfl, rfl⟩ := opens
          obtain ⟨body, gap, same, within, ends, isGap⟩ := splitInLine_isGap text
          dsimp only
          rw [same]
          exact .line within ends isGap
        · split
          · rename_i opens
            obtain ⟨rfl, rfl⟩ := opens
            cases found : splitInBlock? text with
            | none => exact .nil _
            | some r =>
                obtain ⟨body, gap, same, within, isGap⟩ := splitInBlock?_isGap text r found
                dsimp only
                rw [same]
                exact .block within isGap
          · exact .nil _

/-- Inside a line comment the rest of the comment comes first. -/
theorem splitInLine_isGap (text : List Char) :
    ∃ body gap, (splitInLine text).1 = body ++ gap ∧ '\n' ∉ body ∧
      Stops (· != '\n') (gap ++ (splitInLine text).2) ∧ IsGap gap (splitInLine text).2 := by
  match text with
  | [] => exact ⟨[], [], rfl, by simp, by simp [Stops, splitInLine], .nil _⟩
  | c :: text =>
      by_cases feed : c = '\n'
      · subst feed
        refine ⟨[], '\n' :: (split text).1, by simp [splitInLine], by simp, ?_, ?_⟩
        · intro d more same
          cases same
          rfl
        · simpa [splitInLine] using .blank (by simp) (split_isGap text)
      · obtain ⟨body, gap, same, within, ends, isGap⟩ := splitInLine_isGap text
        refine ⟨c :: body, gap, ?_, ?_, ?_, ?_⟩
        · simp [splitInLine, feed, same]
        · simp [within, Ne.symm feed]
        · simpa [splitInLine, feed] using ends
        · simpa [splitInLine, feed] using isGap

/-- Inside a block comment the rest of the comment comes first, up to the mark that closes it. -/
theorem splitInBlock?_isGap (text : List Char) (r : List Char × List Char)
    (found : splitInBlock? text = some r) :
    ∃ body gap, r.1 = body ++ '*' :: '/' :: gap ∧ ¬['*', '/'] <:+: body ∧ IsGap gap r.2 := by
  match text with
  | [] => cases found
  | [_] => cases found
  | c :: d :: text =>
      unfold splitInBlock? at found
      split at found
      · rename_i closes
        obtain ⟨rfl, rfl⟩ := closes
        cases found
        exact ⟨[], (split text).1, rfl, by simp, split_isGap text⟩
      · rename_i inside
        obtain ⟨s, later, rfl⟩ := Option.map_eq_some_iff.mp found
        obtain ⟨body, gap, same, within, isGap⟩ := splitInBlock?_isGap (d :: text) s later
        refine ⟨c :: body, gap, by simp [same], ?_, isGap⟩
        rw [List.infix_cons_iff]
        rintro (first | later')
        · -- the mark would start with `c` and so close the comment here
          have whole := splitInBlock?_append (d :: text) s later
          rw [same] at whole
          cases body with
          | nil => simp at first
          | cons e body =>
              simp only [List.cons_prefix_cons, List.nil_prefix, and_true] at first
              rw [List.cons_append, List.cons_append, ← first.2] at whole
              exact inside ⟨first.1.symm, (List.cons.inj whole).1.symm⟩
        · exact within later'

end

end Lexeme.Trivia

namespace Text

abbrev byteCount (text : List Char) : Nat := (text.map Char.utf8Size).sum

/-- The part of a text between two byte offsets, each of which falls between two characters or at an end of
the text, and what follows that part. -/
def IsSlice (text : List Char) (start stop : Nat) (part rest : List Char) : Prop :=
  ∃ front, text = front ++ part ++ rest ∧ byteCount front = start ∧ byteCount (front ++ part) = stop

end Text

open Text (IsSlice byteCount)
open Lexeme.Trivia (IsGap)

/-- A token that stands in a text: behind a front of it and a gap, and before a rest. -/
structure Token.Stands (front gap rest : List Char) (t : Token) : Prop where
  isGap : IsGap gap (t.raw.toList ++ rest)
  start : t.place.offset = byteCount (front ++ gap)
  stop : t.stop = byteCount (front ++ gap ++ t.raw.toList)
  nonempty : t.kind ≠ .eof → t.raw ≠ ""
  ends : t.kind = .eof → t.raw = "" ∧ rest = []

/-- Tokens that stand in a text one after another behind a front of it, up to a terminal one. -/
inductive Token.Laid : List Char → List Char → List Token → Prop where
  | last {front gap rest : List Char} {t : Token} (stands : Token.Stands front gap rest t)
      (terminal : t.kind.isTerminal = true) : Laid front (gap ++ t.raw.toList ++ rest) [t]
  | next {front gap rest : List Char} {t : Token} {tokens : List Token}
      (stands : Token.Stands front gap rest t) (live : t.kind.isTerminal = false)
      (h : Laid (front ++ gap ++ t.raw.toList) rest tokens) :
      Laid front (gap ++ t.raw.toList ++ rest) (t :: tokens)

namespace Snapshot

/-- The token that a scanning step comes to stands in the text. -/
theorem scan_stands {place : Place} {front : List Char} (at_ : place.offset = byteCount front)
    (text : List Char) :
    ∃ gap, text = gap ++ (scan place text).1.token.raw.toList ++ (scan place text).2 ∧
      Token.Stands front gap (scan place text).2 (scan place text).1.token := by
  have whole := Lexeme.Trivia.split_append text
  have isGap := Lexeme.Trivia.split_isGap text
  refine ⟨(Lexeme.Trivia.split text).1, ?_⟩
  simp only [scan, String.toList_ofList]
  revert whole isGap
  generalize (Lexeme.Trivia.split text).1 = gap
  generalize (Lexeme.Trivia.split text).2 = left
  rintro rfl isGap
  cases left with
  | nil =>
      refine ⟨by simp [Lexeme.read], ?_⟩
      exact { isGap := isGap
              start := by simp [Place.after_offset, at_, byteCount]
              stop := by simp [Lexeme.read, Place.after_offset, at_, byteCount]
              nonempty := fun other => absurd rfl other
              ends := fun _ => ⟨rfl, rfl⟩ }
  | cons c more =>
      obtain ⟨taken, nonempty⟩ := Lexeme.read_takes c more
      refine ⟨by rw [List.append_assoc, taken], ?_⟩
      refine { isGap := by rwa [String.toList_ofList, taken]
               start := by simp [Place.after_offset, at_, byteCount]
               stop := by simp [Place.after_offset, at_, byteCount, Nat.add_assoc]
               nonempty := fun _ empty => nonempty (by simpa using empty)
               ends := fun end_ => ?_ }
      have takes := Lexeme.read_takesText c more
      rw [show (Lexeme.read (c :: more)).kind = .eof from end_] at takes
      cases takes

/-- The tokens of a run that has steps enough stand in the text one after another. -/
theorem follow_laid (n : Nat) {s : Snapshot} {front : List Char} (text : List Char)
    (live : s.isTerminal = false) (at_ : s.read.offset = byteCount front) (enough : text.length + 1 < n) :
    Token.Laid front text ((follow n s text).map Snapshot.token) := by
  induction n generalizing s front text with
  | zero => omega
  | succ n ih =>
      obtain ⟨gap, whole, stands⟩ := scan_stands at_ text
      rw [follow, if_neg (by simp [live]), List.map_cons]
      have laid : ∀ {tokens}, Token.Laid front
          (gap ++ (scan s.read text).1.token.raw.toList ++ (scan s.read text).2) tokens →
          Token.Laid front text tokens := by
        intro tokens h
        rwa [← whole] at h
      cases last : (scan s.read text).1.isTerminal with
      | true =>
          rw [follow_of_terminal last]
          exact laid (.last stands last)
      | false =>
          have shorter := scan_shorter last
          exact laid (.next stands last (ih _ last stands.stop (by omega)))

end Snapshot

namespace Token

/-- Tokens that take a text apart. -/
structure Partition (text : List Char) (tokens : List Token) : Prop where
  /-- The last token, and no other, is terminal. -/
  terminal : ∃ front last, tokens = front ++ [last] ∧ last.kind.isTerminal = true ∧
    ∀ t ∈ front, t.kind.isTerminal = false
  /-- Every token is the slice of the text that its offsets cut out. -/
  slices : ∀ t ∈ tokens, ∃ rest, IsSlice text t.place.offset t.stop t.raw.toList rest
  /-- No token starts before the end of an earlier one. -/
  ordered : tokens.Pairwise fun t u => t.stop ≤ u.place.offset
  /-- Only the end of the text takes no character. -/
  nonempty : ∀ t ∈ tokens, t.kind ≠ .eof → t.place.offset < t.stop
  /-- Between tokens, and before the first one, there are only blanks and comments. -/
  gaps : List.IsChain (fun t u => ∃ gap rest, IsSlice text t.stop u.place.offset gap rest ∧ IsGap gap rest)
    (Token.initial :: tokens)
  /-- Gaps and tokens in turn are the text, but for what a malformed lexeme leaves at the end. -/
  whole : ∃ (gaps : List (List Char)) (rest : List Char), gaps.length = tokens.length ∧
    text = (gaps.zipWith (fun gap t => gap ++ t.raw.toList) tokens).flatten ++ rest ∧
    ((∃ t ∈ tokens, t.kind = .eof) → rest = [])
  /-- The end of the text stands at its end. -/
  ends : ∀ t ∈ tokens, t.kind = .eof → t.place.offset = byteCount text ∧ t.stop = byteCount text

namespace Laid

variable {front text : List Char} {tokens : List Token}

theorem terminal (h : Laid front text tokens) : ∃ before last, tokens = before ++ [last] ∧
    last.kind.isTerminal = true ∧ ∀ t ∈ before, t.kind.isTerminal = false := by
  induction h with
  | @last _ _ _ t _ terminal => exact ⟨[], t, rfl, terminal, by simp⟩
  | @next _ _ _ t _ _ live _ ih =>
      obtain ⟨before, last, rfl, terminal, others⟩ := ih
      exact ⟨t :: before, last, rfl, terminal, List.forall_mem_cons.mpr ⟨live, others⟩⟩

/-- What holds of every token that stands in the text holds of all tokens. -/
theorem forall_mem {P : Token → Prop} (h : Laid front text tokens)
    (each : ∀ {before gap rest : List Char} {t : Token},
      front ++ text = before ++ gap ++ t.raw.toList ++ rest → t.Stands before gap rest → P t) :
    ∀ t ∈ tokens, P t := by
  induction h with
  | last stands _ => simpa using each (by simp) stands
  | next stands _ _ ih =>
      refine List.forall_mem_cons.mpr ⟨each (by simp) stands, ih fun whole => each ?_⟩
      simpa using whole

theorem slices (h : Laid front text tokens) :
    ∀ t ∈ tokens, ∃ rest, IsSlice (front ++ text) t.place.offset t.stop t.raw.toList rest :=
  h.forall_mem fun whole stands => ⟨_, _, whole, stands.start.symm, stands.stop.symm⟩

theorem nonempty (h : Laid front text tokens) : ∀ t ∈ tokens, t.kind ≠ .eof → t.place.offset < t.stop := by
  refine h.forall_mem fun {before gap rest t} _ stands other => ?_
  have some_ : t.raw.toList ≠ [] := fun none_ => stands.nonempty other (by simpa using none_)
  obtain ⟨c, more, chars⟩ := List.exists_cons_of_ne_nil some_
  have positive := c.utf8Size_pos
  rw [stands.start, stands.stop, chars]
  simp only [byteCount, List.map_append, List.sum_append, List.map_cons, List.sum_cons]
  omega

theorem ends (h : Laid front text tokens) : ∀ t ∈ tokens, t.kind = .eof →
    t.place.offset = byteCount (front ++ text) ∧ t.stop = byteCount (front ++ text) := by
  refine h.forall_mem fun {before gap rest t} whole stands eof => ?_
  obtain ⟨raw, rfl⟩ := stands.ends eof
  rw [stands.start, stands.stop, whole, raw]
  simp

/-- The tokens start one after another behind the front of the text. -/
theorem ordered (h : Laid front text tokens) : (∀ t ∈ tokens, byteCount front ≤ t.place.offset) ∧
    tokens.Pairwise fun t u => t.stop ≤ u.place.offset := by
  induction h with
  | last stands _ =>
      refine ⟨?_, by simp⟩
      simp only [List.mem_singleton, forall_eq, stands.start, byteCount, List.map_append, List.sum_append]
      omega
  | @next front gap rest t tokens stands _ _ ih =>
      obtain ⟨starts, increasing⟩ := ih
      have here : byteCount front ≤ t.place.offset := by
        simp only [stands.start, byteCount, List.map_append, List.sum_append]
        omega
      have past : t.place.offset ≤ t.stop := by
        rw [stands.start, stands.stop]
        simp only [byteCount, List.map_append, List.sum_append]
        omega
      refine ⟨List.forall_mem_cons.mpr ⟨here, fun u mem => ?_⟩, List.pairwise_cons.mpr ⟨fun u mem => ?_, increasing⟩⟩
      · have later := starts u mem
        rw [← stands.stop] at later
        omega
      · rw [stands.stop]
        exact starts u mem

/-- Between the token that ends in front of them and the tokens after it there are only gaps. -/
theorem gaps (h : Laid front text tokens) {previous : Token} (at_ : previous.stop = byteCount front) :
    List.IsChain (fun t u => ∃ gap rest, IsSlice (front ++ text) t.stop u.place.offset gap rest ∧ IsGap gap rest)
      (previous :: tokens) := by
  have first : ∀ {front gap rest : List Char} {previous t : Token}, previous.stop = byteCount front →
      t.Stands front gap rest → ∃ gap' rest', IsSlice (front ++ (gap ++ t.raw.toList ++ rest)) previous.stop
        t.place.offset gap' rest' ∧ IsGap gap' rest' := by
    intro front gap rest previous t at_ stands
    exact ⟨gap, t.raw.toList ++ rest, ⟨front, by simp, at_.symm, stands.start.symm⟩, stands.isGap⟩
  induction h generalizing previous with
  | last stands _ => exact .cons_cons (first at_ stands) (.singleton _)
  | next stands _ _ ih =>
      refine .cons_cons (first at_ stands) ?_
      simpa using ih stands.stop

theorem whole (h : Laid front text tokens) : ∃ (gaps : List (List Char)) (rest : List Char),
    gaps.length = tokens.length ∧
    text = (gaps.zipWith (fun gap t => gap ++ t.raw.toList) tokens).flatten ++ rest ∧
    ((∃ t ∈ tokens, t.kind = .eof) → rest = []) := by
  induction h with
  | @last _ gap rest t stands _ =>
      refine ⟨[gap], rest, rfl, by simp, ?_⟩
      simpa using fun eof => (stands.ends eof).2
  | @next _ gap _ t _ stands live _ ih =>
      obtain ⟨gaps, rest, length, rfl, nothing⟩ := ih
      refine ⟨gap :: gaps, rest, by simp [length], by simp, ?_⟩
      rintro ⟨u, mem, eof⟩
      rcases List.mem_cons.mp mem with rfl | mem
      · rw [eof] at live
        cases live
      · exact nothing ⟨u, mem, eof⟩

end Laid

end Token

/-- The tokens of a text take it apart: they are slices of it one after another, all but the end of the text
not empty and only the last one terminal, with nothing but blanks and comments before and between them, and up
to the end of the text if that is the last token. -/
theorem tokenize_partition (text : String) :
    Token.Partition text.toList (Scanner.ofText text).tokenize := by
  have tokens : (Scanner.ofText text).tokenize =
      (Snapshot.follow (text.toList.length + 2) Snapshot.initial text.toList).map Snapshot.token := by
    rw [← Session.snapshots_ofText text {}]
    rfl
  have laid : Token.Laid [] text.toList (Scanner.ofText text).tokenize := by
    rw [tokens]
    exact Snapshot.follow_laid _ _ rfl rfl (by omega)
  exact { terminal := laid.terminal
          slices := laid.slices
          ordered := laid.ordered.2
          nonempty := laid.nonempty
          gaps := laid.gaps rfl
          whole := laid.whole
          ends := laid.ends }

end SelectSyntax
