import SelectSyntax.Proofs.Language
import SelectSyntax.Proofs.Writing

/-!
Words that can be written down. Every lexeme that is no fault is read again where a space follows it, except
for a point, which needs a name or a star right after it. So a word of such lexemes is what some text is
scanned into if every point in it has a name or a star after it.
-/

set_option autoImplicit false
set_option relaxedAutoImplicit false

namespace SelectSyntax

open Text.CharClass (isWordChar isWordStart)
open Token (Kind Keyword)

namespace Lexeme

/-- A text that ends with its closing delimiter, whatever comes after it. -/
def Closes (q : Char) (text : List Char) : Prop :=
  ∀ rest, Stops (· == q) rest → Delimited.close? q (text ++ rest) = some (text, rest)

theorem Delimited.close?_closes {q : Char} {text : List Char} {r : List Char × List Char}
    (found : close? q text = some r) : Closes q r.1 := by
  induction text using close?.induct q generalizing r with
  | case1 => cases found
  | case2 =>
      simp only [close?, if_true, Option.some.injEq] at found
      subst found
      intro rest stops
      cases rest with
      | nil => simp [close?]
      | cons d rest =>
          have other : d ≠ q := by simpa using stops d rest rfl
          simp [close?, other]
  | case3 c h => simp [close?, h] at found
  | case4 text ih =>
      simp only [close?, if_true, Option.map_eq_some_iff] at found
      obtain ⟨r', found, rfl⟩ := found
      intro rest stops
      simp [close?, ih found rest stops]
  | case5 d text h =>
      simp only [close?, if_true, if_neg h, Option.some.injEq] at found
      subst found
      intro rest stops
      cases rest with
      | nil => simp [close?]
      | cons d rest =>
          have other : d ≠ q := by simpa using stops d rest rfl
          simp [close?, other]
  | case6 c d text h ih =>
      simp only [close?, if_neg h, Option.map_eq_some_iff] at found
      obtain ⟨r', found, rfl⟩ := found
      have closes := ih found
      cases inside : r'.1 with
      | nil =>
          have alone := closes [] (by intro _ _ same; cases same)
          rw [inside] at alone
          cases alone
      | cons e more =>
          intro rest stops
          have again := closes rest stops
          simp only [inside, List.cons_append] at again ⊢
          simp [close?, h, again]

/-- Lexemes that are no faults: their kinds, and their texts as far as these matter. -/
inductive Regular : Kind → List Char → Prop
  | word {c : Char} {text : List Char} (start : isWordStart c = true)
      (all : ∀ d ∈ text, isWordChar d = true) :
      Regular (((Keyword.ofChars? (c :: text)).map Kind.keyword).getD .identifier) (c :: text)
  | number {text : List Char} (h : IsNumeral text) : Regular .number text
  | dot : Regular .dot ['.']
  | string {text : List Char} (h : Closes '\'' text) : Regular .string ('\'' :: text)
  | quoted {text : List Char} (h : Closes '"' text) : Regular .identifier ('"' :: text)
  | bracketed {text : List Char} (h : Closes ']' text) : Regular .identifier ('[' :: text)
  | pair {c d : Char} {kind : Kind} (h : ((c, d), kind) ∈ Operator.pairs) : Regular kind [c, d]
  | single {c : Char} {kind : Kind} (h : (c, kind) ∈ Operator.singles) : Regular kind [c]

private theorem Delimited.read_regular {kind : Kind} {unclosed : Token.Fault} {opening closing : Char}
    {text : List Char} (regular : ∀ text, Closes closing text → Regular kind (opening :: text))
    (live : (Delimited.read kind unclosed opening closing text).kind.isTerminal = false) :
    Regular (Delimited.read kind unclosed opening closing text).kind
      (Delimited.read kind unclosed opening closing text).text := by
  unfold Delimited.read at live ⊢
  split
  · rename_i r found
    exact regular _ (close?_closes found)
  · rename_i none_
    simp [none_, Kind.isTerminal] at live

private theorem Numeral.read_regular {text : List Char} (starts : Numeral.Starts text)
    (live : (Numeral.read text).kind.isTerminal = false) :
    Regular (Numeral.read text).kind (Numeral.read text).text := by
  rcases Numeral.read_kind text with number | ⟨f, fault⟩
  · have numeral := Numeral.read_isNumeral starts number
    rw [number]
    exact .number numeral
  · simp [fault, Kind.isTerminal] at live

private theorem Operator.read_regular {c : Char} {text : List Char}
    (live : (Operator.read c text).kind.isTerminal = false) :
    Regular (Operator.read c text).kind (Operator.read c text).text := by
  rcases Operator.read_cases c text with ⟨d, more, _, mem, same⟩ | ⟨mem | ⟨f, fault⟩, same⟩
  · rw [same]
    exact .pair mem
  · rw [same]
    exact .single mem
  · simp [fault, Kind.isTerminal] at live

private theorem readWord_regular {c : Char} {text : List Char} (start : isWordStart c = true) :
    Regular (readWord (c :: text)).kind (readWord (c :: text)).text := by
  have word : (c :: text).takeWhile isWordChar = c :: text.takeWhile isWordChar :=
    List.takeWhile_cons_of_pos (isWordChar_of_isWordStart start)
  have kind : (readWord (c :: text)).kind =
      ((Keyword.ofChars? (c :: text.takeWhile isWordChar)).map Kind.keyword).getD .identifier := by
    rw [readWord, word]
    cases Keyword.ofChars? (c :: text.takeWhile isWordChar) <;> rfl
  rw [kind, readWord, word]
  exact .word start (List.all_eq_true.mp List.all_takeWhile)

private theorem readDot_regular {text : List Char} (live : (readDot text).kind.isTerminal = false) :
    Regular (readDot text).kind (readDot text).text := by
  cases text with
  | nil => cases live
  | cons d text =>
      rw [readDot] at live ⊢
      by_cases digit : d.isDigit = true
      · rw [if_pos digit] at live ⊢
        exact Numeral.read_regular (Or.inr ⟨d, text, rfl, digit⟩) live
      · rw [if_neg digit] at live ⊢
        split
        · exact .dot
        · rename_i other
          rw [if_neg other] at live
          cases live

private theorem readSlash_regular {text : List Char} (live : (readSlash text).kind.isTerminal = false) :
    Regular (readSlash text).kind (readSlash text).text := by
  unfold readSlash at live ⊢
  split at live
  · cases live
  · exact Operator.read_regular live

/-- What is read at the front of a text is regular, or it is a fault or the end. -/
theorem read_regular {text : List Char} (live : (read text).kind.isTerminal = false) :
    Regular (read text).kind (read text).text := by
  cases text with
  | nil => cases live
  | cons c text =>
      obtain ⟨reader, reads, same⟩ := exists_reader c
      rw [same] at live ⊢
      cases reads with
      | word start => exact readWord_regular start
      | numeral digit => exact Numeral.read_regular (Or.inl ⟨c, text, rfl, digit⟩) live
      | dot => exact readDot_regular live
      | slash => exact readSlash_regular live
      | string => exact Delimited.read_regular (fun _ closes => .string closes) live
      | quoted => exact Delimited.read_regular (fun _ closes => .quoted closes) live
      | bracketed => exact Delimited.read_regular (fun _ closes => .bracketed closes) live
      | operator => exact Operator.read_regular live

theorem Regular.readsAs {kind : Kind} {chars : List Char} (h : Regular kind chars)
    (other : kind ≠ .dot) (rest : List Char) :
    ReadsAs kind chars (' ' :: rest) := by
  have stops : ∀ p : Char → Bool, p ' ' = false → Stops p (' ' :: rest) := by
    intro p space c more same
    cases same
    exact space
  cases h with
  | word start all => exact readsAs_word start all (stops _ rfl) rfl
  | number numeral => exact readsAs_number numeral (stops _ rfl)
  | dot => exact absurd rfl other
  | string closes =>
      refine ⟨Trivia.split_eq_nil rfl (by simp) (by simp), ?_⟩
      rw [List.cons_append, read, if_neg (by decide), if_neg (by decide), if_neg (by decide),
        if_neg (by decide), if_pos rfl, Delimited.read, closes _ (stops _ rfl)]
  | quoted closes =>
      refine ⟨Trivia.split_eq_nil rfl (by simp) (by simp), ?_⟩
      rw [List.cons_append, read, if_neg (by decide), if_neg (by decide), if_neg (by decide),
        if_neg (by decide), if_neg (by decide), if_pos rfl, Delimited.read, closes _ (stops _ rfl)]
  | bracketed closes =>
      refine ⟨Trivia.split_eq_nil rfl (by simp) (by simp), ?_⟩
      rw [List.cons_append, read, if_neg (by decide), if_neg (by decide), if_neg (by decide),
        if_neg (by decide), if_neg (by decide), if_neg (by decide), if_pos rfl, Delimited.read,
        closes _ (stops _ rfl)]
  | pair mem =>
      simp only [Operator.pairs, List.mem_cons, Prod.mk.injEq, List.not_mem_nil, or_false] at mem
      rcases mem with ⟨⟨rfl, rfl⟩, rfl⟩ | ⟨⟨rfl, rfl⟩, rfl⟩ | ⟨⟨rfl, rfl⟩, rfl⟩ | ⟨⟨rfl, rfl⟩, rfl⟩ |
        ⟨⟨rfl, rfl⟩, rfl⟩
      all_goals exact ⟨Trivia.split_eq_nil rfl (by simp) (by simp), rfl⟩
  | single mem =>
      simp only [Operator.singles, List.mem_cons, Prod.mk.injEq, List.not_mem_nil, or_false] at mem
      rcases mem with ⟨rfl, rfl⟩ | ⟨rfl, rfl⟩ | ⟨rfl, rfl⟩ | ⟨rfl, rfl⟩ | ⟨rfl, rfl⟩ | ⟨rfl, rfl⟩ |
        ⟨rfl, rfl⟩ | ⟨rfl, rfl⟩ | ⟨rfl, rfl⟩ | ⟨rfl, rfl⟩ | ⟨rfl, rfl⟩ | ⟨rfl, rfl⟩ | ⟨rfl, rfl⟩ |
        ⟨rfl, rfl⟩ | ⟨rfl, rfl⟩ | ⟨rfl, rfl⟩
      all_goals exact ⟨Trivia.split_eq_nil rfl (fun _ => stops _ rfl) (fun _ => stops _ rfl), rfl⟩

/-- A name or a star is read where a point may stand before it. -/
theorem Regular.opensName {kind : Kind} {chars : List Char} (h : Regular kind chars)
    (after : kind = .identifier ∨ kind = .star) : ∃ c more, chars = c :: more ∧ opensName c = true := by
  cases h with
  | @word c text start all => exact ⟨c, text, rfl, by simp [Lexeme.opensName, start]⟩
  | quoted closes | bracketed closes => exact ⟨_, _, rfl, by simp [Lexeme.opensName]⟩
  | number | dot | string => simp at after
  | pair mem =>
      have others : ∀ p ∈ Operator.pairs, p.2 ≠ .identifier ∧ p.2 ≠ .star := by simp [Operator.pairs]
      exact absurd after (not_or.mpr (others _ mem))
  | @single c kind mem =>
      have others : ∀ p ∈ Operator.singles, p.2 = .identifier ∨ p.2 = .star → p.1 = '*' := by
        simp [Operator.singles]
      obtain rfl : c = '*' := others _ mem after
      exact ⟨'*', [], rfl, rfl⟩

theorem Regular.eq_dot {chars : List Char} (h : Regular .dot chars) : chars = ['.'] := by
  generalize point : Kind.dot = kind at h
  cases h with
  | @word c text start all =>
      cases found : Keyword.ofChars? (c :: text) <;> simp [found] at point
  | dot => rfl
  | number | string | quoted | bracketed => cases point
  | pair mem =>
      have others : ∀ p ∈ Operator.pairs, p.2 ≠ .dot := by simp [Operator.pairs]
      exact absurd point.symm (others _ mem)
  | single mem =>
      have others : ∀ p ∈ Operator.singles, p.2 ≠ .dot := by simp [Operator.singles]
      exact absurd point.symm (others _ mem)

end Lexeme

def Symbol.Written (s : Symbol) : Prop :=
  s.kind.isTerminal = false ∧
    ∃ chars, Lexeme.Regular s.kind chars ∧ s = .ofText s.kind (String.ofList chars)

theorem tokenize_written (text : String) : ∀ s ∈ (Scanner.ofText text).tokenize.map Token.symbol,
    s.kind.isTerminal = false → s.Written := by
  intro s mem live
  obtain ⟨rest, rfl⟩ := tokenize_read text s mem
  exact ⟨live, _, Lexeme.read_regular live, rfl⟩

/-- Written symbols are scanned from a text, if every point has a name or a star after it. -/
theorem Word.Dotted.exists_lexes {w : Word} (dotted : Word.Dotted w) (written : ∀ s ∈ w, s.Written) :
    ∃ text, Lexes text w [] ∧ ∀ t v, w = t :: v → t.kind = .identifier ∨ t.kind = .star →
      ∃ c more, text = c :: more ∧ Lexeme.opensName c = true := by
  induction w with
  | nil => exact ⟨[], .done [], by simp⟩
  | cons s w ih =>
      obtain ⟨text, lexes, opens⟩ := ih dotted.2 fun t mem => written t (List.mem_cons_of_mem _ mem)
      obtain ⟨live, chars, regular, same⟩ := written s (List.mem_cons_self ..)
      by_cases point : s.kind = .dot
      · obtain ⟨t, v, next, after⟩ := dotted.1 point
        obtain ⟨c, more, rfl, name⟩ := opens t v next after
        rw [point] at regular live same
        obtain rfl := regular.eq_dot
        refine ⟨['.'] ++ c :: more, ?_, ?_⟩
        · rw [same]
          exact .lexeme live (Lexeme.readsAs_dot name) lexes
        · rintro t v ⟨⟩ after
          simp [point] at after
      · refine ⟨chars ++ ' ' :: text, ?_, ?_⟩
        · rw [same]
          exact .lexeme live (regular.readsAs point text) (.gap lexes)
        · rintro t v ⟨⟩ after
          obtain ⟨c, more, rfl, name⟩ := regular.opensName after
          exact ⟨c, _, rfl, name⟩

theorem Word.Dotted.exists_text {w : Word} (dotted : Word.Dotted w) (written : ∀ s ∈ w, s.Written) :
    ∃ text, (Scanner.ofText text).tokenize.map Token.symbol = w ++ [⟨.eof, ""⟩] := by
  obtain ⟨chars, lexes, _⟩ := dotted.exists_lexes written
  exact ⟨String.ofList chars, Lexes.tokenize (by rwa [String.toList_ofList])⟩

end SelectSyntax
