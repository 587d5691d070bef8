import SelectSyntax.Proofs.Layout
import SelectSyntax.Proofs.Lexemes
import SelectSyntax.Proofs.Transcription

/-!
Texts written again from their tokens. The lexemes of a text with a space behind each of them, but for the
points, are scanned into the same lexemes: a space ends every lexeme and opens no comment, and what a point
stands in front of stays right behind it.
-/

set_option autoImplicit false
set_option relaxedAutoImplicit false

namespace SelectSyntax

open Token (Kind)
open Text.CharClass (isBlank)

namespace Lexeme

theorem read_eq_dot {text : List Char} (point : (read text).kind = .dot) :
    ∃ c more, read text = ⟨.dot, ['.'], c :: more⟩ ∧ opensName c = true := by
  have live : (read text).kind.isTerminal = false := by rw [point]; rfl
  have regular := read_regular live
  rw [point] at regular
  have lexeme := regular.eq_dot
  cases text with
  | nil => cases point
  | cons d rest =>
      have taken := (read_takes d rest).1
      rw [lexeme] at taken
      obtain rfl : '.' = d := (List.cons.inj taken).1
      replace point : (readDot rest).kind = .dot := point
      show ∃ c more, readDot rest = _ ∧ _
      cases rest with
      | nil => cases point
      | cons c more =>
          rw [readDot] at point ⊢
          by_cases digit : c.isDigit = true
          · rw [if_pos digit] at point
            rcases Numeral.read_kind ('.' :: c :: more) with number | ⟨f, fault⟩
            · cases number.symm.trans point
            · cases fault.symm.trans point
          · rw [if_neg digit] at point ⊢
            split at point
            · rename_i name
              exact ⟨c, more, if_pos name, name⟩
            · cases point

theorem split_of_opensName {c : Char} (opens : opensName c = true) (more : List Char) :
    Trivia.split (c :: more) = ([], c :: more) := by
  have other : ∀ d, opensName d = false → c ≠ d := by
    rintro d no rfl
    simp [opens] at no
  refine Trivia.split_eq_nil ?_ (fun dash => absurd dash (other _ rfl)) (fun slash => absurd slash (other _ rfl))
  simp only [isBlank, Bool.or_eq_false_iff, beq_eq_false_iff_ne]
  exact ⟨⟨⟨⟨other _ rfl, other _ rfl⟩, other _ rfl⟩, other _ rfl⟩, other _ rfl⟩

/-- Lexemes one after another with a space behind each of them, but for the points. -/
def spaced : List (Kind × String) → List Char
  | [] => []
  | (kind, text) :: rest => text.toList ++ if kind = .dot then spaced rest else ' ' :: spaced rest

theorem spaced_dot (text : String) (rest : List (Kind × String)) :
    spaced ((.dot, text) :: rest) = text.toList ++ spaced rest := rfl

theorem spaced_other {kind : Kind} (other : kind ≠ .dot) (text : String) (rest : List (Kind × String)) :
    spaced ((kind, text) :: rest) = text.toList ++ ' ' :: spaced rest := by
  rw [spaced, if_neg other]

/-- The lexemes of a text that starts with a name or a star start with the same character. -/
theorem spaced_all_of_opensName {c : Char} (opens : opensName c = true) (more : List Char) :
    ∃ rest, spaced (all (c :: more)) = c :: rest := by
  obtain ⟨taken, some_⟩ := read_takes c more
  obtain ⟨d, text, lexeme⟩ := List.exists_cons_of_ne_nil some_
  rw [lexeme] at taken
  obtain ⟨rfl, -⟩ := List.cons.inj taken
  rw [all, first, split_of_opensName opens, spelled, lexeme, spaced, String.toList_ofList]
  exact ⟨_, rfl⟩

/-- The lexemes of a text that are written again with spaces between them are scanned again. -/
theorem all_spaced {text : List Char} (ends : ∃ l ∈ all text, l.1 = .eof) : all (spaced (all text)) = all text := by
  induction text using all.induct with
  | case1 text ih =>
      cases live : (first text).kind.isTerminal with
      | true =>
          rw [all_of_terminal live] at ends ⊢
          have eof : (first text).kind = .eof := by simpa [spelled] using ends
          have nothing : (Trivia.split text).2 = [] := by
            cases left : (Trivia.split text).2 with
            | nil => rfl
            | cons c more =>
                have takes := read_takesText c more
                rw [← left, show (read (Trivia.split text).2).kind = .eof from eof] at takes
                cases takes
          have last : first text = ⟨.eof, [], []⟩ := by rw [first, nothing, read]
          rw [last]
          exact (all_space []).trans all_nil
      | false =>
          rw [all_of_live live] at ends ⊢
          obtain ⟨l, mem, eof⟩ := ends
          have later : ∃ l ∈ all (first text).rest, l.1 = .eof := by
            rcases List.mem_cons.mp mem with rfl | mem
            · rw [show (first text).kind = .eof from eof] at live
              cases live
            · exact ⟨l, mem, eof⟩
          have again := ih live later
          by_cases point : (first text).kind = .dot
          · -- what the point is read with comes right behind it
            obtain ⟨c, more, lexeme, opens⟩ := read_eq_dot point
            obtain ⟨rest, head⟩ := spaced_all_of_opensName opens more
            rw [show first text = ⟨.dot, ['.'], c :: more⟩ from lexeme] at again ⊢
            rw [head] at again
            rw [spelled, spaced_dot, head, String.toList_ofList]
            exact (all_of_readsAs (readsAs_dot opens) rfl).trans (congrArg _ again)
          · have reads := (read_regular live).readsAs point (spaced (all (first text).rest))
            rw [spelled, spaced_other point, String.toList_ofList]
            refine (all_of_readsAs reads live).trans ?_
            rw [all_space, again]
            rfl

end Lexeme

/-- Tokens written one after another with a space behind each of them, but for the points. -/
def Token.respaced (tokens : List Token) : String :=
  String.join (tokens.map fun t => if t.kind = .dot then t.raw else t.raw ++ " ")

theorem Token.matches_of_spelled {t u : Token} (same : t.spelled = u.spelled) : t.Matches u := by
  obtain ⟨kinds, texts⟩ := Prod.mk.inj same
  exact ⟨kinds, fun _ => congrArg Symbol.text (congrArg₂ Symbol.ofText kinds texts)⟩

theorem Token.toList_respaced (tokens : List Token) :
    (respaced tokens).toList = Lexeme.spaced (tokens.map Token.spelled) := by
  rw [respaced, String.toList_join, List.flatMap_map]
  induction tokens with
  | nil => rfl
  | cons t tokens ih =>
      rw [List.flatMap_cons, ih, List.map_cons, spelled, Lexeme.spaced]
      by_cases point : t.kind = .dot
      · rw [if_pos point, if_pos point]
      · rw [if_neg point, if_neg point, String.toList_append, List.append_assoc]
        rfl

/-- A text whose tokens go up to its end is scanned into tokens of the same kinds and texts when these are written
again with a space behind each of them, but for the points; and every rule has the same outcome on both texts. -/
theorem tokenize_respaced (text : String)
    (ends : (Scanner.ofText text).tokenize.getLast?.map Token.kind = some .eof) :
    let tokens := (Scanner.ofText text).tokenize
    let again := (Scanner.ofText (Token.respaced tokens)).tokenize
    again.map Token.spelled = tokens.map Token.spelled ∧
      ∀ (c : Session.Call) (config : Config), Session.SameOutcome tokens again
        (c.run (Session.ofText text config)).1 (c.run (Session.ofText (Token.respaced tokens) config)).1 := by
  intro tokens again
  have same : again.map Token.spelled = tokens.map Token.spelled := by
    have ends' : ∃ l ∈ Lexeme.all text.toList, l.1 = .eof := by
      obtain ⟨t, last, eof⟩ := Option.map_eq_some_iff.mp ends
      exact ⟨t.spelled, Scanner.spelled_ofText text ▸ List.mem_map_of_mem (List.mem_of_getLast? last), eof⟩
    rw [Scanner.spelled_ofText, Token.toList_respaced, Scanner.spelled_ofText, Lexeme.all_spaced ends']
  refine ⟨same, fun c config => c.sameOutcome config ?_⟩
  have alike : List.Forall₂ (· = ·) (tokens.map Token.spelled) (again.map Token.spelled) :=
    List.forall₂_eq_eq_eq ▸ same.symm
  rw [List.forall₂_map_left_iff, List.forall₂_map_right_iff] at alike
  exact alike.imp fun t u => Token.matches_of_spelled

/-- A text with comments, of which one stands between two signs, and with points in front of a name, a star and a
digit. -/
theorem tokenize_respaced_points :
    let text := "select t.[a] -- one\n,t.*,1..5-/**/-2 from\"t\""
    let tokens := (Scanner.ofText text).tokenize
    let again := (Scanner.ofText (Token.respaced tokens)).tokenize
    tokens.getLast?.map Token.kind = some .eof ∧
      Token.respaced tokens = "select t .[a] , t .* , 1. .5 - - 2 from \"t\"  " ∧
      again.map Token.spelled = tokens.map Token.spelled ∧
      ∀ (c : Session.Call) (config : Config), Session.SameOutcome tokens again
        (c.run (Session.ofText text config)).1 (c.run (Session.ofText (Token.respaced tokens) config)).1 := by
  intro text tokens again
  have ends : (Scanner.ofText text).tokenize.getLast?.map Token.kind = some .eof := by decide +kernel
  exact ⟨ends, by decide +kernel, tokenize_respaced text ends⟩

end SelectSyntax
