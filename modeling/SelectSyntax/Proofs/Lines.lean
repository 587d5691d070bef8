import SelectSyntax.Proofs.Lexemes
import SelectSyntax.Proofs.Writing

/-!
Texts put together at a line break. A text that is scanned up to its end is scanned into the same symbols in
front of a line break and another text, and the symbols of that text follow them: no gap, word, number,
operator or quoted text goes on over the break, and a line comment at the end of the text is closed by it.
-/

set_option autoImplicit false
set_option relaxedAutoImplicit false

namespace SelectSyntax

open Text.CharClass (isBlank isHexDigit isWordChar isWordStart)
open Token (Kind)

theorem Stops.lineBreak {p : Char → Bool} (h : p '\n' = false) (more : List Char) :
    Stops p ('\n' :: more) := by
  rintro c _ ⟨⟩
  exact h

namespace Lexeme

/-- The lexeme of a text to which a line break and another text are added. -/
def before (l : Lexeme) (more : List Char) : Lexeme := { l with rest := l.rest ++ '\n' :: more }

private theorem Numeral.hexadecimal_before (zero mark : Char) (text more : List Char) :
    hexadecimal zero mark (text ++ '\n' :: more) = (hexadecimal zero mark text).before more := by
  obtain ⟨taken, dropped⟩ := (Stops.lineBreak (p := isHexDigit) rfl more).takeWhile text
  unfold hexadecimal
  simp only [taken, dropped]
  split
  · rfl
  · cases text.dropWhile isHexDigit with
    | nil => rfl
    | cons c rest =>
        simp only [List.cons_append]
        split <;> rfl

private theorem Numeral.mantissa_before (text more : List Char) :
    mantissa (text ++ '\n' :: more) = ((mantissa text).1, (mantissa text).2 ++ '\n' :: more) := by
  have stops := Stops.lineBreak (p := Char.isDigit) rfl more
  obtain ⟨taken, dropped⟩ := stops.takeWhile text
  unfold mantissa
  simp only [taken, dropped]
  cases text.dropWhile Char.isDigit with
  | nil => rfl
  | cons c rest =>
      obtain ⟨taken, dropped⟩ := stops.takeWhile rest
      simp only [List.cons_append]
      split
      · rw [taken, dropped]
      · rfl

private theorem Numeral.sign_before (text more : List Char) :
    sign (text ++ '\n' :: more) = ((sign text).1, (sign text).2 ++ '\n' :: more) := by
  cases text with
  | nil => rfl
  | cons c text =>
      rw [List.cons_append, sign, sign]
      split <;> rfl

private theorem Numeral.decimal_before (text more : List Char) :
    decimal (text ++ '\n' :: more) = (decimal text).before more := by
  unfold decimal
  simp only [mantissa_before]
  cases (mantissa text).2 with
  | nil => rfl
  | cons e rest =>
      obtain ⟨taken, dropped⟩ :=
        (Stops.lineBreak (p := Char.isDigit) rfl more).takeWhile (sign rest).2
      simp only [List.cons_append, sign_before, taken, dropped]
      split <;> rfl

private theorem Numeral.read_before (c : Char) (text more : List Char) :
    Numeral.read (c :: text ++ '\n' :: more) = (Numeral.read (c :: text)).before more := by
  cases text with
  | nil =>
      rw [List.singleton_append, Numeral.read, if_neg (by simp)]
      exact decimal_before [c] more
  | cons d text =>
      rw [List.cons_append, List.cons_append, Numeral.read, Numeral.read]
      split
      · exact hexadecimal_before c d text more
      · exact decimal_before (c :: d :: text) more

private theorem Operator.read_before (c : Char) (text more : List Char) :
    Operator.read c (text ++ '\n' :: more) = (Operator.read c text).before more := by
  cases text with
  | nil =>
      have none_ : Operator.pairs.lookup (c, '\n') = none :=
        List.lookup_eq_none_iff.mpr (by simp [Operator.pairs])
      rw [List.nil_append, Operator.read, Operator.read, none_]
      rfl
  | cons d text =>
      rw [List.cons_append, Operator.read, Operator.read]
      split <;> rfl

private theorem Delimited.close?_before {q : Char} (other : q ≠ '\n') {text : List Char}
    {r : List Char × List Char} (found : close? q text = some r) (more : List Char) :
    close? q (text ++ '\n' :: more) = some (r.1, r.2 ++ '\n' :: more) := by
  induction text using close?.induct q generalizing r with
  | case1 => cases found
  | case2 =>
      simp only [close?, if_true, Option.some.injEq] at found
      subst found
      simp [close?, other.symm]
  | case3 c h => simp [close?, h] at found
  | case4 text ih =>
      simp only [close?, if_true, Option.map_eq_some_iff] at found
      obtain ⟨r', found, rfl⟩ := found
      simp [close?, ih found]
  | case5 d text h =>
      simp only [close?, if_true, if_neg h, Option.some.injEq] at found
      subst found
      simp [close?, h]
  | case6 c d text h ih =>
      simp only [close?, if_neg h, Option.map_eq_some_iff] at found
      obtain ⟨r', found, rfl⟩ := found
      have again := ih found
      rw [List.cons_append] at again
      simp [close?, h, again]

private theorem Delimited.read_before {kind : Kind} {unclosed : Token.Fault} {opening closing : Char}
    {text : List Char} (other : closing ≠ '\n')
    (live : (Delimited.read kind unclosed opening closing text).kind.isTerminal = false) (more : List Char) :
    Delimited.read kind unclosed opening closing (text ++ '\n' :: more) =
      (Delimited.read kind unclosed opening closing text).before more := by
  unfold Delimited.read at live ⊢
  cases found : close? closing text with
  | none => simp [found, Kind.isTerminal] at live
  | some r => rw [close?_before other found more]; rfl

private theorem readWord_before (text more : List Char) :
    readWord (text ++ '\n' :: more) = (readWord text).before more := by
  obtain ⟨taken, dropped⟩ := (Stops.lineBreak (p := isWordChar) rfl more).takeWhile text
  unfold readWord
  simp only [taken, dropped]
  rfl

private theorem readDot_before {text : List Char} (live : (readDot text).kind.isTerminal = false)
    (more : List Char) : readDot (text ++ '\n' :: more) = (readDot text).before more := by
  cases text with
  | nil => cases live
  | cons c text =>
      rw [readDot] at live
      rw [List.cons_append, readDot, readDot]
      split
      · exact Numeral.read_before '.' (c :: text) more
      · split <;> rfl

private theorem readSlash_before {text : List Char} (live : (readSlash text).kind.isTerminal = false)
    (more : List Char) : readSlash (text ++ '\n' :: more) = (readSlash text).before more := by
  cases text with
  | nil => exact Operator.read_before '/' [] more
  | cons c text =>
      by_cases star : c = '*'
      · subst star
        cases live
      · have plain : ∀ rest, readSlash (c :: rest) = Operator.read '/' (c :: rest) := by
          intro rest
          unfold readSlash
          split
          · rename_i same
            exact absurd (List.cons.inj same).1 star
          · rfl
        rw [List.cons_append, plain, plain]
        exact Operator.read_before '/' (c :: text) more

/-- A lexeme at the front of a text, if it is no fault and not the end of the text, is read at the front of
the longer text too. -/
theorem read_before {text : List Char} (live : (read text).kind.isTerminal = false) (more : List Char) :
    read (text ++ '\n' :: more) = (read text).before more := by
  cases text with
  | nil => cases live
  | cons c text =>
      obtain ⟨reader, reads, same⟩ := exists_reader c
      rw [same] at live
      rw [List.cons_append, same, same]
      cases reads with
      | word => exact readWord_before (c :: text) more
      | numeral => exact Numeral.read_before c text more
      | dot => exact readDot_before live more
      | slash => exact readSlash_before live more
      | string | quoted | bracketed => exact Delimited.read_before (by decide) live more
      | operator => exact Operator.read_before c text more

namespace Trivia

/-- What is left behind a gap when a line break and another text are added: the gap goes on where nothing was
left. -/
def resume (rest more : List Char) : List Char :=
  match rest with
  | [] => (split more).2
  | c :: rest => c :: rest ++ '\n' :: more

/-- A text that starts with a block comment that is never closed. -/
def Unclosed (text : List Char) : Prop := ∃ more, text = '/' :: '*' :: more

private theorem split_lineBreak (more : List Char) : (split ('\n' :: more)).2 = (split more).2 := by
  cases more with
  | nil => rfl
  | cons c more => rw [split, if_pos (by rfl)]

mutual

/-- A line break goes on with a gap that takes all of a text, and leaves every other gap as it is, if no
comment is open. -/
theorem split_before (text more : List Char) (closed : ¬Unclosed (split text).2) :
    (split (text ++ '\n' :: more)).2 = resume (split text).2 more := by
  match text with
  | [] => exact split_lineBreak more
  | [c] =>
      by_cases blank : isBlank c = true
      · rw [List.singleton_append, split, split, if_pos blank, if_pos blank]
        exact split_lineBreak more
      · rw [List.singleton_append, split, split, if_neg blank, if_neg blank, if_neg (by simp), if_neg (by simp)]
        rfl
  | c :: d :: text =>
      unfold split at closed
      rw [List.cons_append, List.cons_append, split, split]
      by_cases blank : isBlank c = true
      · rw [if_pos blank] at closed ⊢
        rw [if_pos blank]
        exact split_before (d :: text) more closed
      rw [if_neg blank] at closed ⊢
      rw [if_neg blank]
      by_cases line : c = '-' ∧ d = '-'
      · rw [if_pos line] at closed ⊢
        rw [if_pos line]
        exact splitInLine_before text more closed
      rw [if_neg line] at closed ⊢
      rw [if_neg line]
      by_cases block : c = '/' ∧ d = '*'
      · rw [if_pos block] at closed ⊢
        rw [if_pos block]
        cases found : splitInBlock? text with
        | none =>
            rw [found] at closed
            exact absurd ⟨text, by rw [block.1, block.2]⟩ closed
        | some r =>
            rw [found] at closed
            obtain ⟨r', again, same⟩ := splitInBlock?_before text more found closed
            rw [again]
            exact same
      rw [if_neg block, if_neg block]
      rfl

private theorem splitInLine_before (text more : List Char) (closed : ¬Unclosed (splitInLine text).2) :
    (splitInLine (text ++ '\n' :: more)).2 = resume (splitInLine text).2 more := by
  match text with
  | [] =>
      rw [List.nil_append, splitInLine.eq_2]
      rfl
  | c :: text =>
      unfold splitInLine at closed
      rw [List.cons_append, splitInLine, splitInLine]
      by_cases ends : c = '\n'
      · rw [if_pos ends] at closed ⊢
        rw [if_pos ends]
        exact split_before text more closed
      rw [if_neg ends] at closed ⊢
      rw [if_neg ends]
      exact splitInLine_before text more closed

private theorem splitInBlock?_before (text more : List Char) {r : List Char × List Char}
    (found : splitInBlock? text = some r) (closed : ¬Unclosed r.2) :
    ∃ r', splitInBlock? (text ++ '\n' :: more) = some r' ∧ r'.2 = resume r.2 more := by
  match text with
  | [] => cases found
  | [_] => cases found
  | c :: d :: text =>
      unfold splitInBlock? at found
      rw [List.cons_append, List.cons_append, splitInBlock?]
      split at found
      · rename_i ends
        rw [if_pos ends]
        cases found
        exact ⟨_, rfl, split_before text more closed⟩
      · rename_i other
        rw [if_neg other]
        obtain ⟨s, inner, rfl⟩ := Option.map_eq_some_iff.mp found
        obtain ⟨s', again, same⟩ := splitInBlock?_before (d :: text) more inner closed
        rw [List.cons_append] at again
        exact ⟨(c :: s'.1, s'.2), by rw [again]; rfl, same⟩

end

end Trivia

/-- The lexeme behind the gap at the front of a text, if it is no fault and not the end of the text, stands
behind the gap at the front of the longer text too. -/
theorem read_split_before {text : List Char}
    (live : (read (Trivia.split text).2).kind.isTerminal = false) (more : List Char) :
    read (Trivia.split (text ++ '\n' :: more)).2 = (read (Trivia.split text).2).before more := by
  have closed : ¬Trivia.Unclosed (Trivia.split text).2 := by
    rintro ⟨rest, comment⟩
    rw [comment] at live
    cases live
  rw [Trivia.split_before text more closed]
  cases rest : (Trivia.split text).2 with
  | nil =>
      rw [rest] at live
      cases live
  | cons c rest' => exact read_before (rest ▸ live) more

/-- Only the gap before the end of a text goes on over the line break. -/
theorem split_before_of_eof {text : List Char} (ends : (read (Trivia.split text).2).kind = .eof)
    (more : List Char) : (Trivia.split (text ++ '\n' :: more)).2 = (Trivia.split more).2 := by
  have nothing : (Trivia.split text).2 = [] := by
    cases rest : (Trivia.split text).2 with
    | nil => rfl
    | cons c rest' =>
        have takes := read_takesText c rest'
        rw [← rest, ends] at takes
        cases takes
  have closed : ¬Trivia.Unclosed (Trivia.split text).2 := by
    rintro ⟨_, comment⟩
    simp [nothing] at comment
  rw [Trivia.split_before text more closed, nothing]
  rfl

end Lexeme

namespace Word

/-- The symbols that a text is scanned into, up to the first terminal one. -/
def ofChars (text : List Char) : Word :=
  let lexeme := Lexeme.read (Lexeme.Trivia.split text).2
  .ofText lexeme.kind (String.ofList lexeme.text) ::
    if _live : lexeme.kind.isTerminal = false then ofChars lexeme.rest else []
termination_by text.length
decreasing_by exact @Snapshot.scan_shorter Text.Place.start text _live

theorem ofChars_eq_map (text : List Char) :
    ofChars text = (Lexeme.all text).map fun l => .ofText l.1 l.2 := by
  induction text using ofChars.induct with
  | case1 text lexeme ih =>
      rw [ofChars]
      split
      · rename_i live
        rw [Lexeme.all_of_live live, List.map_cons, ih live]
        rfl
      · rename_i terminal
        rw [Lexeme.all_of_terminal (Bool.not_eq_false _ ▸ terminal)]
        rfl

theorem ofChars_nil : ofChars [] = [⟨.eof, ""⟩] := by
  rw [ofChars]
  rfl

theorem ofChars_congr {a b : List Char} (same : (Lexeme.Trivia.split a).2 = (Lexeme.Trivia.split b).2) :
    ofChars a = ofChars b := by
  rw [ofChars, same]
  exact (ofChars.eq_1 b).symm

theorem ofChars_lexes {text rest : List Char} {w : Word} (h : Lexes text w rest) :
    ofChars text = w ++ ofChars rest := by
  induction h with
  | done text => rfl
  | @gap text rest w _ ih =>
      rw [← ih]
      refine ofChars_congr ?_
      cases text with
      | nil => rfl
      | cons c text => rw [Lexeme.Trivia.split, if_pos (by rfl)]
  | @lexeme kind chars text rest w live reads _ ih =>
      rw [ofChars, reads.1]
      simp only [reads.2, live, dif_pos, ih, List.cons_append]

/-- Texts put together at a line break, of which the first is scanned up to its end. -/
theorem ofChars_before {text : List Char} {w : Word} {last : Symbol} (whole : ofChars text = w ++ [last])
    (ends : last.kind = .eof) (more : List Char) : ofChars (text ++ '\n' :: more) = w ++ ofChars more := by
  induction text using ofChars.induct generalizing w with
  | case1 text lexeme =>
      rename_i ih
      rw [ofChars] at whole
      by_cases live : (Lexeme.read (Lexeme.Trivia.split text).2).kind.isTerminal = false
      · rw [dif_pos live] at whole
        cases w with
        | nil =>
            have some_ := (List.cons.inj whole).2
            rw [ofChars] at some_
            cases some_
        | cons s w =>
            obtain ⟨rfl, rest⟩ := List.cons.inj whole
            rw [ofChars, Lexeme.read_split_before live more,
              dif_pos (show (Lexeme.before _ more).kind.isTerminal = false from live)]
            exact congrArg _ (ih live rest)
      · rw [dif_neg live] at whole
        obtain ⟨rfl, rfl⟩ : w = [] ∧ last = _ := by
          cases w with
          | nil => exact ⟨rfl, (List.cons.inj whole).1.symm⟩
          | cons s w => simp at whole
        exact ofChars_congr (Lexeme.split_before_of_eof ends more)

end Word

theorem Scanner.symbols_ofText (text : String) :
    (ofText text).tokenize.map Token.symbol = Word.ofChars text.toList := by
  rw [Word.ofChars_eq_map, ← spelled_ofText, List.map_map]
  rfl

end SelectSyntax
