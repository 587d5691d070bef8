import SelectSyntax.Proofs.Lexing
import SelectSyntax.Proofs.Grammar
import SelectSyntax.Render.Sql

/-!
Written trees are scanned into the lexemes that they are written as: each piece is read back as itself,
whatever is written after it, and a space or a mark ends every piece that a following letter could go on
with.
-/

set_option autoImplicit false
set_option relaxedAutoImplicit false

namespace SelectSyntax

open Text (Place)
open Text.CharClass (isWordChar isWordStart)
open Token (Kind Keyword)

namespace Text.Doubled

theorem unquote_quote {q : Char} (one : q.utf8Size = 1) (value : String) :
    unquote q (quote q value) = value := by
  have last : (double q value.toList ++ [q]).getLast? = some q := by simp
  have inside : inner (q :: (double q value.toList ++ [q])) = double q value.toList := by
    rw [inner, last]
    simp [one]
  rw [unquote, quote, String.toList_ofList, inside, single_double, String.ofList_toList]

end Text.Doubled

/-- The symbol of a token with a kind and a text. -/
def Symbol.ofText (kind : Kind) (text : String) : Symbol := (⟨kind, text, Place.start, 0⟩ : Token).symbol

theorem Token.symbol_eq (t : Token) : t.symbol = .ofText t.kind t.raw := rfl

theorem Symbol.ofText_string (value : String) :
    Symbol.ofText .string (Text.Doubled.quote '\'' value) = ⟨.string, value⟩ := by
  simp [Symbol.ofText, Token.symbol, Token.value, Text.Doubled.unquote_quote (q := '\'') rfl]

theorem Symbol.ofText_quotedName (value : String) :
    Symbol.ofText .identifier (Text.Doubled.quote '"' value) = ⟨.identifier, value⟩ := by
  have chars : (Text.Doubled.quote '"' value).toList =
      '"' :: (Text.Doubled.double '"' value.toList ++ ['"']) := by
    rw [Text.Doubled.quote, String.toList_ofList]
  simp [Symbol.ofText, Token.symbol, Token.value, chars, Text.Doubled.unquote_quote (q := '"') rfl]

theorem Symbol.ofText_name (value : String) :
    Symbol.ofText .identifier (SyntaxTree.Name.spelling value) = ⟨.identifier, value⟩ := by
  unfold SyntaxTree.Name.spelling
  split
  · rename_i plain
    unfold SyntaxTree.Name.isPlain at plain
    split at plain
    · cases plain
    · rename_i c text chars
      simp only [Bool.and_eq_true] at plain
      have start := plain.1.1
      simp only [Symbol.ofText, Token.symbol, Token.value, chars]
      split
      · rename_i same
        cases same
        cases start
      · rename_i same
        cases same
        cases start
      · rfl
  · exact Symbol.ofText_quotedName value

def Symbol.Fits (s : Symbol) : Prop := Lexeme.Fits s.kind s.text.toList

/-- A text is scanned into symbols up to a rest of it. -/
inductive Lexes : List Char → Word → List Char → Prop where
  | done (text : List Char) : Lexes text [] text
  | gap {text rest : List Char} {w : Word} (h : Lexes text w rest) : Lexes (' ' :: text) w rest
  | lexeme {kind : Kind} {chars text rest : List Char} {w : Word} (live : kind.isTerminal = false)
      (reads : Lexeme.ReadsAs kind chars text) (h : Lexes text w rest) :
      Lexes (chars ++ text) (.ofText kind (String.ofList chars) :: w) rest

theorem Lexes.trans {a b c : List Char} {u v : Word} (first : Lexes a u b) (second : Lexes b v c) :
    Lexes a (u ++ v) c := by
  induction first with
  | done text => exact second
  | gap _ ih => exact .gap (ih second)
  | lexeme live reads _ ih => exact .lexeme live reads (ih second)

namespace Snapshot

/-- The symbols that scanning comes to do not depend on the place, and gaps in front of them do not
matter. -/
private theorem follow_symbols (n : Nat) {s s' : Snapshot} {text text' : List Char}
    (live : s.isTerminal = false) (live' : s'.isTerminal = false)
    (same : (Lexeme.Trivia.split text).2 = (Lexeme.Trivia.split text').2) :
    (follow n s text).map (fun p => p.token.symbol) =
      (follow n s' text').map (fun p => p.token.symbol) := by
  induction n generalizing s s' text text' with
  | zero => rfl
  | succ n ih =>
      rw [follow, follow, if_neg (by simp [live]), if_neg (by simp [live']), List.map_cons, List.map_cons]
      have head : (scan s.read text).1.token.symbol = (scan s'.read text').1.token.symbol := by
        simp only [scan, Token.symbol_eq, same]
      have rest : (scan s.read text).2 = (scan s'.read text').2 := by simp only [scan, same]
      have kind : (scan s.read text).1.isTerminal = (scan s'.read text').1.isTerminal := by
        simp only [scan, isTerminal, same]
      rw [head, rest]
      refine congrArg _ ?_
      cases terminal : (scan s'.read text').1.isTerminal with
      | false => exact ih (kind.trans terminal) terminal rfl
      | true =>
          rw [follow_of_terminal (kind.trans terminal), follow_of_terminal terminal]

private theorem follow_lexes {n : Nat} {s : Snapshot} {text : List Char} {w : Word}
    (h : Lexes text w []) (live : s.isTerminal = false) (enough : text.length < n) :
    (follow n s text).map (fun p => p.token.symbol) = w ++ [⟨.eof, ""⟩] := by
  generalize nothing : ([] : List Char) = rest at h
  induction h generalizing n s with
  | done text =>
      subst nothing
      obtain ⟨n, rfl⟩ : ∃ m, n = m + 1 := ⟨n - 1, by omega⟩
      rw [follow, if_neg (by simp [live])]
      cases n with
      | zero => rfl
      | succ n => rfl
  | @gap text _ _ h ih =>
      rw [List.length_cons] at enough
      have same := ih (n := n) live (by omega) nothing
      rw [← same]
      refine follow_symbols n live live ?_
      cases text with
      | nil => rfl
      | cons c text => rw [Lexeme.Trivia.split, if_pos (by rfl)]
  | @lexeme kind chars text _ w alive reads h ih =>
      obtain ⟨n, rfl⟩ : ∃ m, n = m + 1 := ⟨n - 1, by omega⟩
      obtain ⟨gap, read⟩ := reads
      have some_ : chars ≠ [] := by
        rintro rfl
        cases text with
        | nil =>
            rw [List.append_nil, Lexeme.read] at read
            cases read
            cases alive
        | cons c text =>
            have takes := (Lexeme.read_takes c text).2
            rw [List.nil_append] at read
            rw [read] at takes
            exact takes rfl
      have positive := List.length_pos_iff.mpr some_
      rw [List.length_append] at enough
      rw [follow, if_neg (by simp [live]), List.map_cons, List.cons_append]
      have head : (scan s.read (chars ++ text)).1.token.symbol =
          .ofText kind (String.ofList chars) := by
        simp only [scan, gap, read, Token.symbol_eq]
      have rest : (scan s.read (chars ++ text)).2 = text := by simp only [scan, gap, read]
      have still : (scan s.read (chars ++ text)).1.isTerminal = false := by
        simp only [scan, gap, read, isTerminal, alive]
      rw [head, rest, ih still (by omega) nothing]

end Snapshot

theorem Lexes.tokenize {text : String} {w : Word} (h : Lexes text.toList w []) :
    (Scanner.ofText text).tokenize.map Token.symbol = w ++ [⟨.eof, ""⟩] := by
  have snapshots := Session.snapshots_ofText text {}
  have symbols := Snapshot.follow_lexes h (s := Snapshot.initial) rfl
    (Nat.lt_add_of_pos_right (n := text.toList.length) (Nat.succ_pos 1))
  rw [Scanner.tokenize, List.map_map, ← symbols, ← snapshots]
  rfl

theorem tokenize_read (text : String) : ∀ s ∈ (Scanner.ofText text).tokenize.map Token.symbol,
    ∃ rest, s = .ofText (Lexeme.read rest).kind (String.ofList (Lexeme.read rest).text) := by
  intro s mem
  have snapshots := Session.snapshots_ofText text {}
  obtain ⟨t, token, rfl⟩ := List.mem_map.mp mem
  obtain ⟨p, ahead, rfl⟩ := List.mem_map.mp
    (show t ∈ ((Session.ofText text {}).state.cursor.snapshots).map Snapshot.token from token)
  obtain ⟨front, left, _, rfl⟩ := Snapshot.follow_scans _ _ _ p (snapshots ▸ ahead)
  exact ⟨(Lexeme.Trivia.split left).2, rfl⟩

theorem tokenize_fits (text : String) : ∀ s ∈ (Scanner.ofText text).tokenize.map Token.symbol, s.Fits := by
  intro s mem
  obtain ⟨rest, rfl⟩ := tokenize_read text s mem
  have fits := Lexeme.read_fits rest
  refine ⟨fun number => ?_, fun k keyword => ?_⟩
  · have kind : (Lexeme.read rest).kind = .number := number
    simpa [Symbol.ofText, Token.symbol, Token.value, kind] using fits.1 kind
  · have kind : (Lexeme.read rest).kind = .keyword k := keyword
    simpa [Symbol.ofText, Token.symbol, Token.value, kind, Keyword.ofText?] using fits.2 k kind

end SelectSyntax
