import SelectSyntax.Proofs.Lexing

/-!
The lexemes of a text. A text is read lexeme by lexeme up to the first terminal one, and what these are does not
depend on where the text stands; they are the kinds and the texts of its tokens.
-/

set_option autoImplicit false
set_option relaxedAutoImplicit false

namespace SelectSyntax

open Token (Kind)

/-- The kind and the text of a token, wherever it stands. -/
def Token.spelled (t : Token) : Kind × String := (t.kind, t.raw)

namespace Lexeme

/-- The kind and the text of a lexeme, whatever follows it. -/
def spelled (l : Lexeme) : Kind × String := (l.kind, String.ofList l.text)

/-- The lexeme behind the gap at the front of a text. -/
def first (text : List Char) : Lexeme := read (Trivia.split text).2

theorem first_shorter {text : List Char} (live : (first text).kind.isTerminal = false) :
    (first text).rest.length < text.length :=
  @Snapshot.scan_shorter Text.Place.start text live

/-- The lexemes of a text, up to the first terminal one. -/
def all (text : List Char) : List (Kind × String) :=
  (first text).spelled ::
    if _live : (first text).kind.isTerminal = false then all (first text).rest else []
termination_by text.length
decreasing_by exact first_shorter _live

theorem all_of_live {text : List Char} (live : (first text).kind.isTerminal = false) :
    all text = (first text).spelled :: all (first text).rest := by
  rw [all, dif_pos live]

theorem all_of_terminal {text : List Char} (terminal : (first text).kind.isTerminal = true) :
    all text = [(first text).spelled] := by
  rw [all, dif_neg (by simp [terminal])]

theorem all_congr {a b : List Char} (same : (Trivia.split a).2 = (Trivia.split b).2) : all a = all b := by
  have lexeme : first a = first b := congrArg read same
  rw [all, lexeme]
  exact (all.eq_1 b).symm

theorem all_space (text : List Char) : all (' ' :: text) = all text := by
  refine all_congr ?_
  cases text with
  | nil => rfl
  | cons c text => rw [Trivia.split, if_pos (by rfl)]

theorem all_nil : all [] = [(.eof, "")] := all_of_terminal rfl

theorem all_of_readsAs {kind : Kind} {chars rest : List Char} (reads : ReadsAs kind chars rest)
    (live : kind.isTerminal = false) : all (chars ++ rest) = (kind, String.ofList chars) :: all rest := by
  have lexeme : first (chars ++ rest) = ⟨kind, chars, rest⟩ := by rw [first, reads.1, reads.2]
  rw [all_of_live (by rw [lexeme, live]), lexeme]
  rfl

/-- Every lexeme of a text is read at the front of some text. -/
theorem exists_read_of_mem_all {text : List Char} {l : Kind × String} (mem : l ∈ all text) :
    ∃ rest, l = (read rest).spelled := by
  induction text using all.induct with
  | case1 text ih =>
      rw [all] at mem
      rcases List.mem_cons.mp mem with rfl | later
      · exact ⟨_, rfl⟩
      · split at later
        · rename_i live
          exact ih live later
        · cases later

end Lexeme

/-- A run with steps enough comes to the lexemes of the text, wherever it starts. -/
theorem Snapshot.follow_spelled (n : Nat) {s : Snapshot} {text : List Char} (live : s.isTerminal = false)
    (enough : text.length < n) : (follow n s text).map (fun p => p.token.spelled) = Lexeme.all text := by
  induction n generalizing s text with
  | zero => omega
  | succ n ih =>
      rw [follow, if_neg (by simp [live]), List.map_cons]
      cases last : (Lexeme.first text).kind.isTerminal with
      | true =>
          rw [Lexeme.all_of_terminal last, follow_of_terminal (s := (scan s.read text).1) last]
          rfl
      | false =>
          rw [Lexeme.all_of_live last]
          exact congrArg _ (ih last (Nat.lt_of_lt_of_le (scan_shorter last) (Nat.le_of_lt_succ enough)))

theorem Scanner.spelled_ofText (text : String) :
    (ofText text).tokenize.map Token.spelled = Lexeme.all text.toList := by
  have snapshots := Session.snapshots_ofText text {}
  have lexemes : (Snapshot.follow (text.toList.length + 2) Snapshot.initial text.toList).map _ = _ :=
    Snapshot.follow_spelled _ rfl (by omega)
  rw [Scanner.tokenize, List.map_map, ← lexemes, ← snapshots]
  rfl

end SelectSyntax
