import Mathlib.Algebra.GroupWithZero.Nat
import SelectSyntax.Proofs.Cursor

/-!
Scanning takes a text apart: gaps and lexemes in turn make up the text again, each lexeme but the last
takes a character, and the run of snapshots ends with the first terminal token.
-/

set_option autoImplicit false
set_option relaxedAutoImplicit false

namespace SelectSyntax

open Text (Place)
open Text.Suffix (fromByte?)

namespace Lexeme

namespace Trivia

mutual

theorem split_append (text : List Char) : (split text).1 ++ (split text).2 = text := by
  match text with
  | [] => rfl
  | [c] =>
      unfold split
      split <;> rfl
  | c :: d :: text =>
      unfold split
      by_cases blank : Text.CharClass.isBlank c = true
      · simpa [blank] using split_append (d :: text)
      · simp only [blank, Bool.false_eq_true, if_false]
        split
        · simpa using splitInLine_append text
        · split
          · cases found : splitInBlock? text with
            | none => rfl
            | some r => simpa using splitInBlock?_append text r found
          · rfl

theorem splitInLine_append (text : List Char) :
    (splitInLine text).1 ++ (splitInLine text).2 = text := by
  match text with
  | [] => rfl
  | c :: text =>
      unfold splitInLine
      by_cases h : c = '\n'
      · simpa [h] using split_append text
      · simpa [h] using splitInLine_append text

theorem splitInBlock?_append (text : List Char) (r : List Char × List Char)
    (found : splitInBlock? text = some r) : r.1 ++ r.2 = text := by
  match text with
  | [] => cases found
  | [_] => cases found
  | c :: d :: text =>
      unfold splitInBlock? at found
      split at found
      · cases found
        simpa using split_append text
      · obtain ⟨s, inner, rfl⟩ := Option.map_eq_some_iff.mp found
        simpa using splitInBlock?_append (d :: text) s inner

end

end Trivia

/-- How a lexeme is read on from the character that it starts with. -/
inductive Reader : Char → (List Char → Lexeme) → Prop where
  | word {c : Char} (start : Text.CharClass.isWordStart c = true) : Reader c fun text => readWord (c :: text)
  | numeral {c : Char} (digit : c.isDigit = true) : Reader c fun text => Numeral.read (c :: text)
  | dot : Reader '.' readDot
  | slash : Reader '/' readSlash
  | string : Reader '\'' (Delimited.read .string .unterminatedString '\'' '\'')
  | quoted : Reader '"' (Delimited.read .identifier .unterminatedQuotedIdentifier '"' '"')
  | bracketed : Reader '[' (Delimited.read .identifier .unterminatedBracketIdentifier '[' ']')
  | operator (c : Char) : Reader c (Operator.read c)

/-- The first character of a text decides how its lexeme is read, whatever comes after it. -/
theorem exists_reader (c : Char) :
    ∃ reader, Reader c reader ∧ ∀ text, read (c :: text) = reader text := by
  by_cases start : Text.CharClass.isWordStart c = true
  · exact ⟨_, .word start, fun text => by rw [read, if_pos start]⟩
  by_cases digit : c.isDigit = true
  · exact ⟨_, .numeral digit, fun text => by rw [read, if_neg start, if_pos digit]⟩
  by_cases point : c = '.'
  · obtain rfl := point
    exact ⟨_, .dot, fun text => rfl⟩
  by_cases slash : c = '/'
  · obtain rfl := slash
    exact ⟨_, .slash, fun text => rfl⟩
  by_cases quote : c = '\''
  · obtain rfl := quote
    exact ⟨_, .string, fun text => rfl⟩
  by_cases double : c = '"'
  · obtain rfl := double
    exact ⟨_, .quoted, fun text => rfl⟩
  by_cases bracket : c = '['
  · obtain rfl := bracket
    exact ⟨_, .bracketed, fun text => rfl⟩
  exact ⟨_, .operator c, fun text => by
    rw [read, if_neg start, if_neg digit, if_neg point, if_neg slash, if_neg quote, if_neg double,
      if_neg bracket]⟩

/-- A lexeme that takes a character or more from the front of a text. -/
def Takes (lexeme : Lexeme) (text : List Char) : Prop :=
  lexeme.text ++ lexeme.rest = text ∧ lexeme.text ≠ []

theorem Delimited.close?_append (q : Char) (text : List Char) (r : List Char × List Char)
    (found : close? q text = some r) : r.1 ++ r.2 = text := by
  induction text using close?.induct q generalizing r with
  | case1 => cases found
  | case2 =>
      simp only [close?, if_true, Option.some.injEq] at found
      exact found ▸ rfl
  | case3 c h => simp [close?, h] at found
  | case4 text ih =>
      simp only [close?, if_true, Option.map_eq_some_iff] at found
      obtain ⟨s, found, rfl⟩ := found
      simpa using ih s found
  | case5 d text h =>
      simp only [close?, if_true, if_neg h, Option.some.injEq] at found
      exact found ▸ rfl
  | case6 c d text h ih =>
      simp only [close?, if_neg h, Option.map_eq_some_iff] at found
      obtain ⟨s, found, rfl⟩ := found
      simpa using ih s found

theorem Delimited.read_takes (kind : Token.Kind) (unclosed : Token.Fault) (opening closing : Char)
    (text : List Char) : Takes (Delimited.read kind unclosed opening closing text)
      (opening :: text) := by
  unfold Delimited.read
  cases found : close? closing text with
  | none => exact ⟨by simp, by simp⟩
  | some r =>
      have whole := close?_append closing text r found
      exact ⟨by simp [whole], by simp⟩

private theorem Numeral.hexadecimal_takes (zero mark : Char) (text : List Char) :
    Takes (Numeral.hexadecimal zero mark text) (zero :: mark :: text) := by
  have whole : text.takeWhile Text.CharClass.isHexDigit ++
      text.dropWhile Text.CharClass.isHexDigit = text := List.takeWhile_append_dropWhile
  unfold Numeral.hexadecimal
  revert whole
  generalize text.takeWhile Text.CharClass.isHexDigit = digits
  generalize text.dropWhile Text.CharClass.isHexDigit = rest
  rintro rfl
  dsimp only
  split
  · rename_i empty
    have none : digits = [] := by simpa using empty
    exact ⟨by simp [none], by simp⟩
  · cases rest with
    | nil => exact ⟨by simp, by simp⟩
    | cons c more =>
        dsimp only
        split
        · exact ⟨by simp, by simp⟩
        · exact ⟨by simp, by simp⟩

private theorem Numeral.mantissa_append (text : List Char) :
    (Numeral.mantissa text).1 ++ (Numeral.mantissa text).2 = text := by
  have whole : text.takeWhile Char.isDigit ++ text.dropWhile Char.isDigit = text :=
    List.takeWhile_append_dropWhile
  unfold Numeral.mantissa
  cases rest : text.dropWhile Char.isDigit with
  | nil => simpa [rest] using whole
  | cons c more =>
      dsimp only
      split
      · have decimals : more.takeWhile Char.isDigit ++ more.dropWhile Char.isDigit = more :=
          List.takeWhile_append_dropWhile
        simp only [List.append_assoc, List.cons_append, decimals]
        exact rest ▸ whole
      · exact rest ▸ whole

private theorem Numeral.mantissa_ne_nil {c : Char} (text : List Char)
    (start : c.isDigit = true ∨ c = '.') : (Numeral.mantissa (c :: text)).1 ≠ [] := by
  unfold Numeral.mantissa
  by_cases digit : c.isDigit = true
  · simp only [List.takeWhile_cons, digit, if_true]
    split
    · simp
    · split <;> simp
  · have point : c = '.' := start.resolve_left digit
    simp [point]

private theorem Numeral.sign_append (text : List Char) :
    (Numeral.sign text).1 ++ (Numeral.sign text).2 = text := by
  cases text with
  | nil => rfl
  | cons c text =>
      rw [Numeral.sign]
      split <;> rfl

private theorem Numeral.decimal_takes {c : Char} (text : List Char)
    (start : c.isDigit = true ∨ c = '.') : Takes (Numeral.decimal (c :: text)) (c :: text) := by
  have whole := mantissa_append (c :: text)
  have some_ := mantissa_ne_nil text start
  unfold Numeral.decimal
  revert whole some_
  generalize Numeral.mantissa (c :: text) = m
  obtain ⟨digits, rest⟩ := m
  intro whole some_
  cases rest with
  | nil => exact ⟨whole, some_⟩
  | cons e more =>
      dsimp only
      split
      · have signed := sign_append more
        have exponent : (Numeral.sign more).2.takeWhile Char.isDigit ++
            (Numeral.sign more).2.dropWhile Char.isDigit = (Numeral.sign more).2 :=
          List.takeWhile_append_dropWhile
        refine ⟨?_, by simp⟩
        simp only [List.append_assoc, List.cons_append, exponent, signed]
        exact whole
      · exact ⟨whole, some_⟩

theorem Numeral.read_takes {c : Char} (text : List Char) (start : c.isDigit = true ∨ c = '.') :
    Takes (Numeral.read (c :: text)) (c :: text) := by
  cases text with
  | nil => exact decimal_takes [] start
  | cons d text =>
      rw [Numeral.read]
      split
      · exact hexadecimal_takes c d text
      · exact decimal_takes (d :: text) start

theorem Operator.read_takes (c : Char) (text : List Char) :
    Takes (Operator.read c text) (c :: text) := by
  cases text with
  | nil => exact ⟨rfl, by simp [Operator.read, Operator.single]⟩
  | cons d text =>
      rw [Operator.read]
      split
      · exact ⟨rfl, by simp⟩
      · exact ⟨rfl, by simp [Operator.single]⟩

private theorem readDot_takes (text : List Char) : Takes (readDot text) ('.' :: text) := by
  cases text with
  | nil => exact ⟨rfl, by simp [readDot]⟩
  | cons c text =>
      rw [readDot]
      split
      · exact Numeral.read_takes (c :: text) (Or.inr rfl)
      · split
        · exact ⟨rfl, by simp⟩
        · exact ⟨rfl, by simp⟩

private theorem readSlash_takes (text : List Char) : Takes (readSlash text) ('/' :: text) := by
  unfold readSlash
  split
  · exact ⟨by simp, by simp⟩
  · exact Operator.read_takes '/' text

/-- The lexeme at the front of a text takes a character of it. -/
theorem read_takes (c : Char) (text : List Char) : Takes (read (c :: text)) (c :: text) := by
  obtain ⟨reader, reads, same⟩ := exists_reader c
  rw [same]
  cases reads with
  | word start =>
      have continues : Text.CharClass.isWordChar c = true := by
        simp only [Text.CharClass.isWordStart, Text.CharClass.isWordChar, Char.isAlphanum,
          Bool.or_eq_true] at start ⊢
        rcases start with h | h
        · exact Or.inl (Or.inl h)
        · exact Or.inr h
      exact ⟨List.takeWhile_append_dropWhile, by simp [readWord, continues]⟩
  | numeral digit => exact Numeral.read_takes text (Or.inl digit)
  | dot => exact readDot_takes text
  | slash => exact readSlash_takes text
  | string | quoted | bracketed => exact Delimited.read_takes _ _ _ _ text
  | operator => exact Operator.read_takes c text

theorem read_append (text : List Char) : (read text).text ++ (read text).rest = text := by
  cases text with
  | nil => rfl
  | cons c text => exact (read_takes c text).1

theorem Numeral.read_kind (text : List Char) :
    (Numeral.read text).kind = .number ∨ ∃ f, (Numeral.read text).kind = .fault f := by
  have decimal : ∀ text, (Numeral.decimal text).kind = .number ∨
      ∃ f, (Numeral.decimal text).kind = .fault f := by
    intro text
    unfold Numeral.decimal
    simp only
    split
    · simp
    · split
      · simp only
        split <;> simp
      · simp
  unfold Numeral.read
  split
  · split
    · unfold Numeral.hexadecimal
      simp only
      split
      · simp
      · split
        · simp
        · split <;> simp
    · exact decimal _
  · exact decimal _

theorem Operator.read_cases (c : Char) (text : List Char) :
    (∃ d more, text = d :: more ∧ ((c, d), (Operator.read c text).kind) ∈ Operator.pairs ∧
        (Operator.read c text).text = [c, d]) ∨
      ((c, (Operator.read c text).kind) ∈ Operator.singles ∨ ∃ f, (Operator.read c text).kind = .fault f) ∧
        (Operator.read c text).text = [c] := by
  have single : ∀ rest, ((c, (Operator.single c rest).kind) ∈ Operator.singles ∨
      ∃ f, (Operator.single c rest).kind = .fault f) ∧ (Operator.single c rest).text = [c] := by
    intro rest
    refine ⟨?_, rfl⟩
    unfold Operator.single
    cases found : Operator.singles.lookup c with
    | none => exact Or.inr ⟨_, rfl⟩
    | some kind =>
        obtain ⟨before, after, same, _⟩ := List.lookup_eq_some_iff.mp found
        exact Or.inl (by simp [same])
  cases text with
  | nil => exact Or.inr (single [])
  | cons d text =>
      rw [Operator.read]
      split
      · rename_i kind found
        obtain ⟨before, after, same, _⟩ := List.lookup_eq_some_iff.mp found
        exact Or.inl ⟨d, text, rfl, by simp [same], rfl⟩
      · exact Or.inr (single (d :: text))

/-- The kinds of tokens that take characters: all but those of the two ends of a text. -/
def takesText : Token.Kind → Bool
  | .start | .eof => false
  | _ => true

private theorem Operator.read_takesText (c : Char) (text : List Char) :
    takesText (Operator.read c text).kind = true := by
  have pairs : ∀ p ∈ Operator.pairs, takesText p.2 = true := by simp [Operator.pairs, takesText]
  have singles : ∀ p ∈ Operator.singles, takesText p.2 = true := by simp [Operator.singles, takesText]
  rcases Operator.read_cases c text with ⟨d, more, _, mem, _⟩ | ⟨mem | ⟨f, fault⟩, _⟩
  · exact pairs _ mem
  · exact singles _ mem
  · rw [fault]
    rfl

private theorem Delimited.read_takesText {kind : Token.Kind} {unclosed : Token.Fault}
    {opening closing : Char} {text : List Char} (h : takesText kind = true) :
    takesText (Delimited.read kind unclosed opening closing text).kind = true := by
  unfold Delimited.read
  split
  · exact h
  · rfl

private theorem Numeral.read_takesText (text : List Char) :
    takesText (Numeral.read text).kind = true := by
  rcases Numeral.read_kind text with number | ⟨f, fault⟩
  · rw [number]
    rfl
  · rw [fault]
    rfl

/-- The lexeme at the front of a text with a character is neither end of a text. -/
theorem read_takesText (c : Char) (text : List Char) : takesText (read (c :: text)).kind = true := by
  obtain ⟨reader, reads, same⟩ := exists_reader c
  rw [same]
  cases reads with
  | word =>
      unfold readWord
      dsimp only
      split <;> rfl
  | numeral => exact Numeral.read_takesText _
  | dot =>
      unfold readDot
      split
      · rfl
      · split
        · exact Numeral.read_takesText _
        · split <;> rfl
  | slash =>
      unfold readSlash
      split
      · rfl
      · exact Operator.read_takesText _ _
  | string | quoted | bracketed => exact Delimited.read_takesText rfl
  | operator => exact Operator.read_takesText _ _

theorem read_ne_start (text : List Char) : (read text).kind ≠ .start := by
  cases text with
  | nil => simp [read]
  | cons c text =>
      intro start
      have takes := read_takesText c text
      rw [start] at takes
      cases takes

end Lexeme

namespace Text

theorem Place.after_offset (p : Place) (text : List Char) :
    (p.after text).offset = p.offset + (text.map Char.utf8Size).sum := by
  induction text generalizing p with
  | nil => rfl
  | cons c text ih =>
      have step : (p.next c).offset = p.offset + c.utf8Size := by
        unfold Place.next
        split <;> rfl
      rw [Place.after_cons, ih, step, List.map_cons, List.sum_cons, Nat.add_assoc]

/-- Cutting after the bytes of a prefix leaves what follows it. -/
theorem Suffix.fromByte?_append (front text : List Char) :
    fromByte? (front.map Char.utf8Size).sum (front ++ text) = some text := by
  induction front with
  | nil => exact fromByte?_zero text
  | cons c front ih =>
      have positive := c.utf8Size_pos
      obtain ⟨n, size⟩ : ∃ n, c.utf8Size + (front.map Char.utf8Size).sum = n + 1 :=
        ⟨_, (Nat.succ_pred_eq_of_pos (by omega)).symm⟩
      rw [List.map_cons, List.sum_cons, size, List.cons_append, fromByte?, if_pos (by omega),
        show n + 1 - c.utf8Size = (front.map Char.utf8Size).sum by omega, ih]

end Text

namespace Snapshot

open Parse.Cursor (Ends)

theorem scan_append (place : Place) (text : List Char) :
    ∃ front, front ++ (scan place text).2 = text ∧
      (scan place text).1.read = place.after front := by
  have gap := Lexeme.Trivia.split_append text
  refine ⟨(Lexeme.Trivia.split text).1 ++ (Lexeme.read (Lexeme.Trivia.split text).2).text, ?_, ?_⟩
  · simp only [scan, List.append_assoc, Lexeme.read_append, gap]
  · simp only [scan, Place.after_append]

/-- A step to a token that is not terminal leaves less of the text. -/
theorem scan_shorter {place : Place} {text : List Char}
    (live : (scan place text).1.isTerminal = false) : (scan place text).2.length < text.length := by
  have gap := congrArg List.length (Lexeme.Trivia.split_append text)
  rw [List.length_append] at gap
  cases rest : (Lexeme.Trivia.split text).2 with
  | nil => simp [scan, rest, Lexeme.read, isTerminal, Token.Kind.isTerminal] at live
  | cons c more =>
      obtain ⟨whole, nonempty⟩ := Lexeme.read_takes c more
      have length := congrArg List.length whole
      have positive := List.length_pos_iff.mpr nonempty
      simp only [scan, rest, List.length_append] at length gap ⊢
      omega

theorem scan_places (place : Place) (text : List Char) :
    place.offset ≤ (scan place text).1.token.place.offset ∧
      (scan place text).1.token.place.offset ≤ (scan place text).1.read.offset := by
  simp only [scan, Place.after_offset]
  omega

theorem scan_place_lt {place : Place} {text : List Char} (live : (scan place text).1.isTerminal = false) :
    (scan place text).1.token.place.offset < (scan place text).1.read.offset := by
  cases rest : (Lexeme.Trivia.split text).2 with
  | nil => simp [scan, rest, Lexeme.read, isTerminal, Token.Kind.isTerminal] at live
  | cons c more =>
      obtain ⟨_, nonempty⟩ := Lexeme.read_takes c more
      obtain ⟨d, taken, same⟩ := List.exists_cons_of_ne_nil nonempty
      have positive := d.utf8Size_pos
      simp only [scan, rest, same, Place.after_offset, List.map_cons, List.sum_cons]
      omega

/-- Whatever a run comes to is what a scanning step comes to somewhere behind a front of the text. -/
theorem follow_scans (n : Nat) (s : Snapshot) (text : List Char) :
    ∀ p ∈ follow n s text, ∃ front left, text = front ++ left ∧ p = (scan (s.read.after front) left).1 := by
  induction n generalizing s text with
  | zero => simp [follow]
  | succ n ih =>
      rw [follow]
      split
      · simp
      · obtain ⟨taken, whole, read⟩ := scan_append s.read text
        refine List.forall_mem_cons.mpr ⟨⟨[], text, rfl, rfl⟩, fun p later => ?_⟩
        obtain ⟨front, left, same, scans⟩ := ih _ _ p later
        refine ⟨taken ++ front, left, by rw [← whole, same, List.append_assoc], ?_⟩
        rw [scans, read, Place.after_append]

theorem follow_of_terminal {s : Snapshot} (terminal : s.isTerminal = true) (n : Nat) (text : List Char) :
    follow n s text = [] := by
  cases n with
  | zero => rfl
  | succ n => rw [follow, if_pos terminal]

/-- A run with a step for each character left and one more ends. -/
theorem follow_ends (n : Nat) (s : Snapshot) (text : List Char) (enough : text.length < n) :
    Ends (s :: follow n s text) := by
  induction n generalizing s text with
  | zero => omega
  | succ n ih =>
      rw [follow]
      by_cases terminal : s.isTerminal = true
      · simp [terminal, Ends]
      · simp only [terminal, Bool.false_eq_true, if_false]
        refine ⟨by simpa using terminal, ?_⟩
        by_cases last : (scan s.read text).1.isTerminal = true
        · cases n with
          | zero => exact last
          | succ n => simp [follow, last, Ends]
        · have shorter := scan_shorter (by simpa using last)
          exact ih _ _ (by omega)

theorem follow_eq (n m : Nat) (s : Snapshot) (text : List Char) (enough : text.length < n)
    (also : text.length < m) : follow n s text = follow m s text := by
  induction n generalizing m s text with
  | zero => omega
  | succ n ih =>
      obtain ⟨m, rfl⟩ : ∃ k, m = k + 1 := ⟨m - 1, by omega⟩
      rw [follow, follow]
      by_cases terminal : s.isTerminal = true
      · rw [if_pos terminal, if_pos terminal]
      · rw [if_neg terminal, if_neg terminal]
        by_cases last : (scan s.read text).1.isTerminal = true
        · simp only [follow_of_terminal last]
        · have shorter := scan_shorter (by simpa using last)
          exact congrArg _ (ih m _ _ (by omega) (by omega))

/-- The tokens of a run start one after another, none of them before the place that reading has come to. -/
theorem follow_places (n : Nat) (s : Snapshot) (text : List Char) :
    (∀ p ∈ follow n s text, s.read.offset ≤ p.token.place.offset) ∧
      (follow n s text).Pairwise fun p q => p.token.place.offset < q.token.place.offset := by
  induction n generalizing s text with
  | zero => simp [follow]
  | succ n ih =>
      rw [follow]
      split
      · simp
      · obtain ⟨starts, ends⟩ := scan_places s.read text
        obtain ⟨after, increasing⟩ := ih (scan s.read text).1 (scan s.read text).2
        refine ⟨fun p mem => ?_, List.pairwise_cons.mpr ⟨fun p mem => ?_, increasing⟩⟩
        · rcases List.mem_cons.mp mem with rfl | mem
          · exact starts
          · exact Nat.le_trans (Nat.le_trans starts ends) (after p mem)
        · have live : (scan s.read text).1.isTerminal = false := by
            cases terminal : (scan s.read text).1.isTerminal with
            | false => rfl
            | true =>
                rw [follow_of_terminal terminal] at mem
                cases mem
          exact Nat.lt_of_lt_of_le (scan_place_lt live) (after p mem)

/-- A snapshot on the way through a text: the next ones are those that scanning comes to from the place that
it has read up to. -/
theorem follow_suffix {n : Nat} {s p : Snapshot} {whole front text : List Char} {more : List Snapshot}
    (enough : text.length < n) (split : front ++ text = whole)
    (place : s.read.offset = (front.map Char.utf8Size).sum) (suffix : p :: more <:+ follow n s text) :
    p.token.kind ≠ .start ∧ ∃ rest, Text.Suffix.fromByte? p.read.offset whole = some rest ∧
      more = follow (rest.length + 1) p rest := by
  induction n generalizing s front text with
  | zero => omega
  | succ n ih =>
      rw [follow] at suffix
      split at suffix
      · cases List.suffix_nil.mp suffix
      · obtain ⟨taken, same, read⟩ := scan_append s.read text
        have split' : (front ++ taken) ++ (scan s.read text).2 = whole := by
          rw [List.append_assoc, same, split]
        have place' : (scan s.read text).1.read.offset = ((front ++ taken).map Char.utf8Size).sum := by
          rw [read, Text.Place.after_offset, place, List.map_append, List.sum_append]
        replace suffix : p :: more <:+ (scan s.read text).1 :: follow n (scan s.read text).1 _ := suffix
        by_cases terminal : (scan s.read text).1.isTerminal = true
        · have stays := follow_of_terminal terminal
          rw [stays] at suffix
          obtain ⟨rfl, rfl⟩ := List.cons.inj (List.suffix_cons_iff.mp suffix |>.resolve_right (by simp))
          refine ⟨Lexeme.read_ne_start _, (scan s.read text).2, ?_, (stays _ _).symm⟩
          rw [place', ← split', Text.Suffix.fromByte?_append]
        · have shorter := scan_shorter (by simpa using terminal)
          rcases List.suffix_cons_iff.mp suffix with head | tail
          · obtain ⟨rfl, rfl⟩ := List.cons.inj head
            refine ⟨Lexeme.read_ne_start _, (scan s.read text).2, ?_, follow_eq _ _ _ _ (by omega) (by omega)⟩
            rw [place', ← split', Text.Suffix.fromByte?_append]
          · exact ih (by omega) split' place' tail

end Snapshot

namespace Session

/-- A session on a text starts on the first token and has those after it ahead. -/
theorem snapshots_ofText (text : String) (config : Config) :
    (ofText text config).state.cursor.snapshots =
      Snapshot.follow (text.toList.length + 2) Snapshot.initial text.toList := by
  have primed : (Scanner.ofText text).primed =
      ⟨text, (Snapshot.scan Place.start text.toList).1⟩ := by
    simp [Scanner.primed, Scanner.isPrimed, Scanner.ofText, Scanner.current, Snapshot.initial,
      Token.initial, Scanner.advance, Snapshot.isTerminal, Token.Kind.isTerminal, Scanner.rest,
      Place.start]
  obtain ⟨front, whole, place⟩ := Snapshot.scan_append Place.start text.toList
  have rest : (Scanner.ofText text).primed.rest = (Snapshot.scan Place.start text.toList).2 := by
    have cut := Text.Suffix.fromByte?_append front (Snapshot.scan Place.start text.toList).2
    rw [whole] at cut
    rw [primed, Scanner.rest, place, Text.Place.after_offset, show Place.start.offset = 0 from rfl,
      Nat.zero_add, cut]
    rfl
  have length := congrArg List.length whole
  rw [List.length_append] at length
  have ahead : (Scanner.ofText text).primed.ahead = Snapshot.follow (text.toList.length + 1)
      (Snapshot.scan Place.start text.toList).1 (Snapshot.scan Place.start text.toList).2 := by
    rw [Scanner.ahead, rest, primed]
    exact Snapshot.follow_eq _ _ _ _ (by omega) (by omega)
  show (Scanner.ofText text).primed.state :: (Scanner.ofText text).primed.ahead = _
  rw [ahead, primed]
  rfl

theorem tokenize_places (text : String) : (Scanner.ofText text).tokenize.Pairwise fun t u =>
    t.place.offset < u.place.offset := by
  have snapshots := snapshots_ofText text {}
  have tokens : (Scanner.ofText text).tokenize =
      ((ofText text {}).state.cursor.snapshots).map Snapshot.token := rfl
  rw [tokens, snapshots, List.pairwise_map]
  exact (Snapshot.follow_places _ _ _).2

theorem complete (s : Session) : s.state.Complete :=
  Snapshot.follow_ends _ _ _ (Nat.lt_succ_self _)

/-- A scanner that parsers have moved on has the tokens that are left to them. -/
theorem tokenize_moveTo {text : String} {config : Config} {t : Parse.State}
    (h : t.Within (ofText text config).state) :
    ((ofText text config).moveTo t).scanner.tokenize = t.cursor.snapshots.map Snapshot.token := by
  have suffix : t.cursor.snapshots <:+ (ofText text config).state.cursor.snapshots := h.cursor
  rw [snapshots_ofText] at suffix
  obtain ⟨live, rest, cut, ahead⟩ := Snapshot.follow_suffix (by omega)
    (List.nil_append text.toList) rfl suffix
  have input : ((ofText text config).moveTo t).scanner = ⟨text, t.cursor.current⟩ := by
    have same : (Scanner.ofText text).primed.input = text := by
      unfold Scanner.primed Scanner.advance
      split
      · rfl
      · split <;> rfl
    exact congrArg (Scanner.mk · t.cursor.current) same
  have primed : (⟨text, t.cursor.current⟩ : Scanner).primed = ⟨text, t.cursor.current⟩ := by
    rw [Scanner.primed, if_pos (by simpa [Scanner.isPrimed, Scanner.current] using live)]
  rw [input, Scanner.tokenize, primed, Scanner.ahead, Scanner.rest]
  simp only [cut, Option.getD_some]
  rw [← ahead]
  rfl

end Session

end SelectSyntax
