import Mathlib.Computability.RegularExpressions
import SelectSyntax.Proofs.Boundaries
import SelectSyntax.Proofs.Invariants

/-!
The numbers of a text and the language of numerals. The scanner takes for one number exactly the texts that the pattern
of numerals matches; inside a text it takes the longest of them, and what could go on with a hexadecimal one is a fault.
-/

set_option autoImplicit false
set_option relaxedAutoImplicit false

namespace SelectSyntax

open Text (IsSlice)
open Text.CharClass (isHexDigit isWordChar)

namespace Lexeme.Numeral.Pattern

open RegularExpression (char)

def anyOf (chars : String) : RegularExpression Char := (chars.toList.map char).sum

def repeated (r : RegularExpression Char) : RegularExpression Char := r * r.star

def optional (r : RegularExpression Char) : RegularExpression Char := r + 1

def digit : RegularExpression Char := anyOf "0123456789"

def hexDigit : RegularExpression Char := anyOf "0123456789ABCDEFabcdef"

def hexadecimal : RegularExpression Char := char '0' * anyOf "xX" * repeated hexDigit

/-- A point with digits after it or without: `\.[0-9]*`. -/
def fraction : RegularExpression Char := char '.' * digit.star

/-- What comes before the exponent: `[0-9]+(\.[0-9]*)?|\.[0-9]+`. -/
def mantissa : RegularExpression Char := repeated digit * optional fraction + char '.' * repeated digit

def exponent : RegularExpression Char := anyOf "eE" * optional (anyOf "+-") * repeated digit

/-- Decimal numerals: a mantissa with an exponent or without. -/
def decimal : RegularExpression Char := mantissa * optional exponent

def numeral : RegularExpression Char := hexadecimal + decimal

theorem mem_anyOf {chars : String} {w : List Char} :
    w ∈ (anyOf chars).matches' ↔ ∃ c ∈ chars.toList, w = [c] := by
  unfold anyOf
  induction chars.toList with
  | nil => simp [RegularExpression.matches'_zero]
  | cons d more ih =>
      have head : w ∈ (char d).matches' ↔ w = [d] := Iff.rfl
      rw [List.map_cons, List.sum_cons, RegularExpression.matches'_add, Language.mem_add, ih, head]
      simp

theorem mem_optional {r : RegularExpression Char} {w : List Char} :
    w ∈ (optional r).matches' ↔ w ∈ r.matches' ∨ w = [] := by
  rw [optional, RegularExpression.matches'_add, Language.mem_add, RegularExpression.matches'_epsilon,
    Language.mem_one]

theorem mem_char_mul {c : Char} {r : RegularExpression Char} {w : List Char} :
    w ∈ (char c * r).matches' ↔ ∃ v ∈ r.matches', w = c :: v := by
  rw [RegularExpression.matches'_mul, Language.mem_mul]
  constructor
  · rintro ⟨_, rfl, v, mem, rfl⟩
    exact ⟨v, mem, rfl⟩
  · rintro ⟨v, mem, rfl⟩
    exact ⟨[c], rfl, v, mem, rfl⟩

theorem mem_star_anyOf {chars : String} {w : List Char} :
    w ∈ (anyOf chars).star.matches' ↔ ∀ c ∈ w, c ∈ chars.toList := by
  rw [RegularExpression.matches'_star, Language.mem_kstar]
  constructor
  · rintro ⟨parts, rfl, each⟩ c mem
    obtain ⟨part, inside, here⟩ := List.mem_flatten.mp mem
    obtain ⟨d, listed, rfl⟩ := mem_anyOf.mp (each part inside)
    exact List.mem_singleton.mp here ▸ listed
  · intro all
    refine ⟨w.map fun c => [c], (List.flatMap_singleton' w).symm, fun part mem => ?_⟩
    obtain ⟨c, inside, rfl⟩ := List.mem_map.mp mem
    exact mem_anyOf.mpr ⟨c, all c inside, rfl⟩

theorem mem_repeated_anyOf {chars : String} {w : List Char} :
    w ∈ (repeated (anyOf chars)).matches' ↔ w ≠ [] ∧ ∀ c ∈ w, c ∈ chars.toList := by
  rw [repeated, RegularExpression.matches'_mul, Language.mem_mul]
  constructor
  · rintro ⟨first, one, rest, many, rfl⟩
    obtain ⟨c, listed, rfl⟩ := mem_anyOf.mp one
    exact ⟨by simp, List.forall_mem_cons.mpr ⟨listed, mem_star_anyOf.mp many⟩⟩
  · rintro ⟨some_, all⟩
    obtain ⟨c, more, rfl⟩ := List.exists_cons_of_ne_nil some_
    obtain ⟨listed, others⟩ := List.forall_mem_cons.mp all
    exact ⟨[c], mem_anyOf.mpr ⟨c, listed, rfl⟩, more, mem_star_anyOf.mpr others, rfl⟩

theorem mem_iff_of_ascii {p : Char → Bool} {chars : String} (ascii : ∀ c, p c = true → c.toNat < 128)
    (table : ∀ n < 128, p (Char.ofNat n) = true → Char.ofNat n ∈ chars.toList)
    (all : chars.toList.all p = true) (c : Char) : c ∈ chars.toList ↔ p c = true := by
  refine ⟨List.all_eq_true.mp all c, fun inside => ?_⟩
  rw [← Char.ofNat_toNat c] at inside ⊢
  exact table _ (by simpa using ascii c (by simpa using inside)) inside

theorem mem_digits (c : Char) : c ∈ "0123456789".toList ↔ c.isDigit = true := by
  refine mem_iff_of_ascii (fun c digit => ?_) (by decide) (by decide) c
  simp only [Char.isDigit, Bool.and_eq_true, decide_eq_true_eq, UInt32.le_iff_toNat_le] at digit
  exact Nat.lt_of_le_of_lt digit.2 (by decide)

theorem mem_hexDigits (c : Char) : c ∈ "0123456789ABCDEFabcdef".toList ↔ isHexDigit c = true := by
  refine mem_iff_of_ascii (fun c digit => ?_) (by decide) (by decide) c
  simp only [isHexDigit, Char.isDigit, Bool.or_eq_true, Bool.and_eq_true, decide_eq_true_eq, Char.le_def,
    UInt32.le_iff_toNat_le] at digit
  rcases digit with (digit | digit) | digit
  · exact Nat.lt_of_le_of_lt digit.2 (by decide)
  · exact Nat.lt_of_le_of_lt digit.2 (by decide)
  · exact Nat.lt_of_le_of_lt digit.2 (by decide)

theorem mem_star_digit {w : List Char} : w ∈ digit.star.matches' ↔ ∀ c ∈ w, c.isDigit = true := by
  simp only [digit, mem_star_anyOf, mem_digits]

theorem mem_repeated_digit {w : List Char} :
    w ∈ (repeated digit).matches' ↔ w ≠ [] ∧ ∀ c ∈ w, c.isDigit = true := by
  simp only [digit, mem_repeated_anyOf, mem_digits]

theorem mem_hexadecimal {w : List Char} : w ∈ hexadecimal.matches' ↔ ∃ mark digits,
    w = '0' :: mark :: digits ∧ (mark = 'x' ∨ mark = 'X') ∧ digits ≠ [] ∧ ∀ c ∈ digits, isHexDigit c = true := by
  rw [hexadecimal, RegularExpression.matches'_mul, Language.mem_mul]
  simp only [hexDigit, mem_repeated_anyOf, mem_hexDigits, mem_char_mul, mem_anyOf]
  constructor
  · rintro ⟨_, ⟨_, ⟨mark, base, rfl⟩, rfl⟩, digits, ⟨some_, all⟩, rfl⟩
    exact ⟨mark, digits, rfl, by simpa using base, some_, all⟩
  · rintro ⟨mark, digits, rfl, base, some_, all⟩
    exact ⟨['0', mark], ⟨[mark], ⟨mark, by simpa using base, rfl⟩, rfl⟩, digits, ⟨some_, all⟩, rfl⟩

theorem mem_optional_exponent {w : List Char} : w ∈ (optional exponent).matches' ↔ IsExponent w := by
  rw [mem_optional, exponent, RegularExpression.matches'_mul, RegularExpression.matches'_mul, Language.mem_mul]
  simp only [Language.mem_mul, mem_repeated_digit, mem_anyOf, mem_optional]
  constructor
  · rintro (⟨_, ⟨_, ⟨e, mark, rfl⟩, sign, isSign, rfl⟩, digits, ⟨some_, all⟩, rfl⟩ | rfl)
    · refine Or.inr ⟨e, sign, digits, rfl, by simpa using mark, ?_, some_, all⟩
      rcases isSign with ⟨c, mem, rfl⟩ | rfl
      · right; simpa using mem
      · exact Or.inl rfl
    · exact Or.inl rfl
  · rintro (rfl | ⟨e, sign, digits, rfl, mark, isSign, some_, all⟩)
    · exact Or.inr rfl
    · refine Or.inl ⟨e :: sign, ⟨[e], ⟨e, by simpa using mark, rfl⟩, sign, ?_, rfl⟩, digits, ⟨some_, all⟩, rfl⟩
      rcases isSign with rfl | rfl | rfl
      · exact Or.inr rfl
      · exact Or.inl ⟨'+', by decide, rfl⟩
      · exact Or.inl ⟨'-', by decide, rfl⟩

theorem mem_optional_fraction {w : List Char} : w ∈ (optional fraction).matches' ↔ IsFraction w := by
  simp only [fraction, mem_optional, mem_char_mul, mem_star_digit, IsFraction]
  constructor
  · rintro (⟨digits, all, rfl⟩ | rfl)
    · exact Or.inr ⟨digits, rfl, all⟩
    · exact Or.inl rfl
  · rintro (rfl | ⟨digits, rfl, all⟩)
    · exact Or.inr rfl
    · exact Or.inl ⟨digits, all, rfl⟩

/-- Digits and a fraction, where a point at the front has a digit after it. -/
theorem mem_mantissa {w : List Char} : w ∈ mantissa.matches' ↔ ∃ whole fraction, w = whole ++ fraction ∧
    (∀ c ∈ whole, c.isDigit = true) ∧ IsFraction fraction ∧ Starts w := by
  rw [mantissa, RegularExpression.matches'_add, Language.mem_add, RegularExpression.matches'_mul, Language.mem_mul]
  simp only [mem_char_mul, mem_repeated_digit, mem_optional_fraction]
  constructor
  · rintro (⟨whole, ⟨some_, all⟩, fraction, point, rfl⟩ | ⟨digits, ⟨some_, all⟩, rfl⟩)
    · obtain ⟨c, more, rfl⟩ := List.exists_cons_of_ne_nil some_
      exact ⟨c :: more, fraction, rfl, all, point, Or.inl ⟨c, _, rfl, all c List.mem_cons_self⟩⟩
    · obtain ⟨d, more, rfl⟩ := List.exists_cons_of_ne_nil some_
      exact ⟨[], '.' :: d :: more, rfl, by simp, Or.inr ⟨_, rfl, all⟩,
        Or.inr ⟨d, more, rfl, all d List.mem_cons_self⟩⟩
  · rintro ⟨whole, fraction, rfl, all, point, starts⟩
    cases whole with
    | cons c more => exact Or.inl ⟨c :: more, ⟨by simp, all⟩, fraction, point, rfl⟩
    | nil =>
        rcases point with rfl | ⟨digits, rfl, decimals⟩
        · rcases starts with ⟨_, _, same, _⟩ | ⟨_, _, same, _⟩ <;> cases same
        · rcases starts with ⟨_, _, same, digit⟩ | ⟨d, more, same, _⟩
          · cases same
            cases digit
          · cases same
            exact Or.inr ⟨d :: more, ⟨by simp, decimals⟩, rfl⟩

theorem mem_numeral {w : List Char} : w ∈ numeral.matches' ↔ IsNumeral w := by
  rw [numeral, RegularExpression.matches'_add, Language.mem_add, mem_hexadecimal, decimal,
    RegularExpression.matches'_mul, Language.mem_mul]
  simp only [mem_mantissa, mem_optional_exponent]
  constructor
  · rintro (⟨mark, digits, rfl, base, some_, all⟩ |
      ⟨_, ⟨whole, fraction, rfl, all, point, starts⟩, exponent, power, rfl⟩)
    · exact .hexadecimal base some_ all
    · rw [List.append_assoc]
      exact .decimal all point power starts
  · intro h
    cases h with
    | hexadecimal base some_ all => exact Or.inl ⟨_, _, rfl, base, some_, all⟩
    | decimal all point power starts =>
        exact Or.inr ⟨_, ⟨_, _, rfl, all, point, starts⟩, _, power, List.append_assoc ..⟩

end Lexeme.Numeral.Pattern

/-- The longest of the texts of a language that a text starts with. -/
def Text.IsLongest (l : Language Char) (part text : List Char) : Prop :=
  part ∈ l ∧ part <+: text ∧ ∀ other ∈ l, other <+: text → other.length ≤ part.length

open Text (IsLongest)

namespace Lexeme

namespace Numeral

/-- A hexadecimal lexeme that is no fault takes all digits, and nothing that goes on with it follows. -/
theorem hexadecimal_of_number {zero mark : Char} {text : List Char}
    (number : (hexadecimal zero mark text).kind = .number) :
    hexadecimal zero mark text =
        ⟨.number, zero :: mark :: text.takeWhile isHexDigit, text.dropWhile isHexDigit⟩ ∧
      EndsNumeral (text.dropWhile isHexDigit) := by
  unfold hexadecimal at number ⊢
  dsimp only at number ⊢
  split at number
  · cases number
  · rename_i some_
    rw [if_neg some_]
    cases rest : text.dropWhile isHexDigit with
    | nil => exact ⟨rfl, fun c more same => by cases same⟩
    | cons c more =>
        simp only [rest] at number ⊢
        split at number
        · cases number
        · rename_i other
          rw [if_neg other]
          refine ⟨rfl, ?_⟩
          rintro _ _ ⟨⟩
          simpa [and_comm] using other

theorem mantissa_digits {whole : List Char} (all : ∀ c ∈ whole, c.isDigit = true) (text : List Char) :
    mantissa (whole ++ text) = (whole ++ (mantissa text).1, (mantissa text).2) := by
  unfold mantissa
  dsimp only
  rw [List.takeWhile_append_of_pos all, List.dropWhile_append_of_pos all]
  split
  · rfl
  · split
    · rw [List.append_assoc]
    · rfl

theorem decimal_digits {whole : List Char} (all : ∀ c ∈ whole, c.isDigit = true) (text : List Char) :
    (decimal (whole ++ text)).text = whole ++ (decimal text).text := by
  unfold decimal
  rw [mantissa_digits all]
  generalize mantissa text = m
  obtain ⟨taken, left⟩ := m
  cases left with
  | nil => rfl
  | cons e more =>
      dsimp only
      split
      · exact List.append_assoc ..
      · rfl

theorem length_mantissa_le (text : List Char) : (mantissa text).1.length ≤ (decimal text).text.length := by
  unfold decimal
  dsimp only
  split
  · exact Nat.le_refl _
  · split
    · rw [List.length_append]
      exact Nat.le_add_right ..
    · exact Nat.le_refl _

theorem length_exponent_le {text taken exponent : List Char} (power : IsExponent exponent) (rest : List Char)
    (front : mantissa text = (taken, exponent ++ rest)) :
    taken.length + exponent.length ≤ (decimal text).text.length := by
  rcases power with rfl | ⟨e, signs, digits, rfl, mark, isSign, some_, all⟩
  · have le := length_mantissa_le text
    rwa [front] at le
  · have signed := sign_of_digits isSign some_ all rest
    unfold decimal
    rw [front]
    simp only [List.cons_append, List.append_assoc, if_pos mark, signed, List.takeWhile_append_of_pos all]
    simp only [List.length_append, List.length_cons]
    omega

/-- What follows the whole part of a numeral is taken with it. -/
theorem length_fraction_le {fraction exponent : List Char} (point : IsFraction fraction)
    (power : IsExponent exponent) (rest : List Char) :
    fraction.length + exponent.length ≤ (decimal (fraction ++ (exponent ++ rest))).text.length := by
  -- no exponent starts with a digit or a point
  have mark : exponent = [] ∨ ∃ e more, exponent = e :: more ∧ e.isDigit = false ∧ e ≠ '.' := by
    rcases power with rfl | ⟨e, _, _, rfl, rfl | rfl, _⟩
    · exact Or.inl rfl
    · exact Or.inr ⟨_, _, rfl, rfl, by decide⟩
    · exact Or.inr ⟨_, _, rfl, rfl, by decide⟩
  rcases point with rfl | ⟨digits, rfl, all⟩
  · rcases mark with rfl | ⟨e, more, rfl, digit, other⟩
    · exact Nat.zero_le _
    · refine length_exponent_le power rest ?_
      simp [mantissa, digit, other]
  · have front : mantissa ('.' :: digits ++ (exponent ++ rest)) =
        ('.' :: (digits ++ (exponent ++ rest).takeWhile Char.isDigit), (exponent ++ rest).dropWhile Char.isDigit) := by
      simp [mantissa, List.takeWhile_append_of_pos all, List.dropWhile_append_of_pos all]
    rcases mark with rfl | ⟨e, more, rfl, digit, _⟩
    · have le := length_mantissa_le ('.' :: digits ++ ([] ++ rest))
      rw [front] at le
      simp only [List.length_cons, List.length_append, List.length_nil] at le ⊢
      omega
    · refine length_exponent_le power rest ?_
      rw [front]
      simp [digit]

/-- A numeral is read as a hexadecimal one where a base mark follows a zero, and as a decimal one elsewhere. -/
theorem read_cases (text : List Char) :
    (∃ mark more, text = '0' :: mark :: more ∧ (mark = 'x' ∨ mark = 'X') ∧
        read text = hexadecimal '0' mark more) ∨
      read text = decimal text ∧ ∀ mark more, text = '0' :: mark :: more → ¬(mark = 'x' ∨ mark = 'X') := by
  rcases text with _ | ⟨c, _ | ⟨d, more⟩⟩
  · exact Or.inr ⟨rfl, by simp⟩
  · exact Or.inr ⟨rfl, by simp⟩
  · by_cases base : c = '0' ∧ (d = 'x' ∨ d = 'X')
    · rw [read, if_pos base]
      obtain ⟨rfl, base⟩ := base
      exact Or.inl ⟨d, more, rfl, base, rfl⟩
    · rw [read, if_neg base]
      refine Or.inr ⟨rfl, ?_⟩
      rintro _ _ ⟨⟩ mark
      exact base ⟨rfl, mark⟩

theorem ne_baseMark {whole fraction exponent : List Char} (all : ∀ c ∈ whole, c.isDigit = true)
    (point : IsFraction fraction) (power : IsExponent exponent) :
    ∀ c ∈ whole ++ (fraction ++ exponent), ¬(c = 'x' ∨ c = 'X') := by
  have digits : ∀ {l : List Char}, (∀ c ∈ l, c.isDigit = true) → ∀ c ∈ l, ¬(c = 'x' ∨ c = 'X') := by
    rintro l each c mem (rfl | rfl) <;> cases each _ mem
  refine List.forall_mem_append.mpr ⟨digits all, List.forall_mem_append.mpr ⟨?_, ?_⟩⟩
  · rcases point with rfl | ⟨decimals, rfl, each⟩
    · simp
    · exact List.forall_mem_cons.mpr ⟨by decide, digits each⟩
  · rcases power with rfl | ⟨e, sign, decimals, rfl, mark, isSign, _, each⟩
    · simp
    · refine List.forall_mem_cons.mpr ⟨?_, List.forall_mem_append.mpr ⟨?_, digits each⟩⟩
      · rcases mark with rfl | rfl <;> decide
      · rcases isSign with rfl | rfl | rfl <;> simp

/-- A numeric lexeme that is no fault is no shorter than any numeral that the text starts with. -/
theorem length_le_read {text other : List Char} (number : (read text).kind = .number)
    (numeral : IsNumeral other) (front : other <+: text) : other.length ≤ (read text).text.length := by
  obtain ⟨rest, rfl⟩ := front
  rcases read_cases (other ++ rest) with ⟨mark, more, chars, base, reads⟩ | ⟨reads, noMark⟩
  · rw [reads] at number ⊢
    rw [(hexadecimal_of_number number).1]
    cases numeral with
    | hexadecimal _ _ all =>
        obtain ⟨rfl, rfl⟩ : _ = mark ∧ _ = more := by simpa using chars
        simp [List.takeWhile_append_of_pos all]
    | @decimal whole fraction exponent all point power _ =>
        -- with two characters or more the base mark would be one of them
        have marks := ne_baseMark all point power
        generalize whole ++ (fraction ++ exponent) = other at chars marks
        match other with
        | [] | [_] => simp
        | _ :: d :: _ =>
            obtain ⟨-, second, -⟩ : _ ∧ d = mark ∧ _ = more := by simpa using chars
            exact absurd base (second ▸ marks d (by simp))
  · rw [reads]
    cases numeral with
    | @hexadecimal mark digits base _ _ => exact absurd base (noMark mark (digits ++ rest) rfl)
    | @decimal whole fraction exponent all point power _ =>
        have le := length_fraction_le point power rest
        simp only [List.append_assoc, decimal_digits all, List.length_append]
        omega

/-- Nothing that goes on with a hexadecimal numeral follows it. -/
theorem ends_of_hexadecimal {text : List Char} {mark : Char} {digits : List Char}
    (number : (read text).kind = .number) (base : mark = 'x' ∨ mark = 'X')
    (same : (read text).text = '0' :: mark :: digits) (whole : (read text).text ++ (read text).rest = text) :
    EndsNumeral (read text).rest := by
  rcases read_cases text with ⟨mark', more, _, _, reads⟩ | ⟨_, noMark⟩
  · rw [reads] at number ⊢
    obtain ⟨lexeme, ends⟩ := hexadecimal_of_number number
    rwa [lexeme]
  · rw [same] at whole
    exact absurd base (noMark mark _ whole.symm)

end Numeral

private theorem Operator.read_ne_number (c : Char) (text : List Char) :
    (Operator.read c text).kind ≠ .number := by
  have pairs : ∀ p ∈ Operator.pairs, p.2 ≠ .number := by simp [Operator.pairs]
  have singles : ∀ p ∈ Operator.singles, p.2 ≠ .number := by simp [Operator.singles]
  rcases Operator.read_cases c text with ⟨d, more, _, mem, _⟩ | ⟨mem | ⟨f, fault⟩, _⟩
  · exact pairs _ mem
  · exact singles _ mem
  · simp [fault]

private theorem Delimited.read_ne_number {kind : Token.Kind} {unclosed : Token.Fault} {opening closing : Char}
    {text : List Char} (other : kind ≠ .number) :
    (Delimited.read kind unclosed opening closing text).kind ≠ .number := by
  unfold Delimited.read
  split
  · exact other
  · simp

theorem read_of_number {text : List Char} (number : (read text).kind = .number) :
    read text = Numeral.read text ∧ Numeral.Starts text := by
  cases text with
  | nil => cases number
  | cons c text =>
      obtain ⟨reader, reads, same⟩ := exists_reader c
      rw [same] at number ⊢
      cases reads with
      | word =>
          simp only [readWord] at number
          split at number <;> cases number
      | numeral digit => exact ⟨rfl, Or.inl ⟨c, text, rfl, digit⟩⟩
      | dot =>
          cases text with
          | nil => cases number
          | cons d more =>
              rw [readDot] at number ⊢
              split at number
              · rename_i digit
                rw [if_pos digit]
                exact ⟨rfl, Or.inr ⟨d, more, rfl, digit⟩⟩
              · split at number <;> cases number
      | slash =>
          unfold readSlash at number
          split at number
          · cases number
          · exact absurd number (Operator.read_ne_number '/' text)
      | string | quoted | bracketed => exact absurd number (Delimited.read_ne_number (by simp))
      | operator => exact absurd number (Operator.read_ne_number c text)

end Lexeme

/-- Every token of a text is a slice of it, and it is the lexeme at the front of what is left of the text from its
start on. -/
theorem Scanner.reads_of_mem {text : String} {t : Token} (mem : t ∈ (ofText text).tokenize) :
    ∃ rest, IsSlice text.toList t.place.offset t.stop t.raw.toList rest ∧
      Lexeme.read (t.raw.toList ++ rest) = ⟨t.kind, t.raw.toList, rest⟩ := by
  have input : (ofText text).input.toList = [] ++ text.toList := rfl
  have rest : (ofText text).rest = text.toList := rest_eq input rfl
  rw [tokenize_eq_map, snapshots_of_start rfl, ahead, rest] at mem
  obtain ⟨p, ahead, rfl⟩ := List.mem_map.mp mem
  obtain ⟨front, left, whole, rfl⟩ := Snapshot.follow_scans _ _ _ p ahead
  have gap := Lexeme.Trivia.split_append left
  have lexeme := Lexeme.read_append (Lexeme.Trivia.split left).2
  simp only [Snapshot.scan, String.toList_ofList]
  refine ⟨(Lexeme.read (Lexeme.Trivia.split left).2).rest, ⟨front ++ (Lexeme.Trivia.split left).1, ?_, ?_, ?_⟩, ?_⟩
  · rw [List.append_assoc, lexeme, List.append_assoc, gap, whole]
  · rw [← Text.Place.after_append, Text.Place.after_offset]
    exact (Nat.zero_add _).symm
  · rw [← Text.Place.after_append, ← Text.Place.after_append, Text.Place.after_offset, List.append_assoc]
    exact (Nat.zero_add _).symm
  · rw [lexeme]

open Lexeme (IsNumeral)
open Lexeme.Numeral (Pattern.hexadecimal Pattern.mem_hexadecimal Pattern.mem_numeral Pattern.numeral)

/-- A text is one number exactly if it is a numeral. Every number in a text is the longest numeral that what is left
of the text from there on starts with, and neither a point nor a character of a word follows a hexadecimal one. -/
theorem numbers_exact (text : String) :
    (IsNumber text ↔ text.toList ∈ Pattern.numeral.matches') ∧
      ∀ t ∈ (Scanner.ofText text).tokenize, t.kind = .number →
        ∃ rest, IsSlice text.toList t.place.offset t.stop t.raw.toList rest ∧
          IsLongest Pattern.numeral.matches' t.raw.toList (t.raw.toList ++ rest) ∧
          (t.raw.toList ∈ Pattern.hexadecimal.matches' → ∀ c ∈ rest.head?, c ≠ '.' ∧ isWordChar c = false) := by
  refine ⟨isNumber_iff.trans Pattern.mem_numeral.symm, fun t mem number => ?_⟩
  obtain ⟨rest, slice, reads⟩ := Scanner.reads_of_mem mem
  rw [number] at reads
  -- the token is what is read as a numeral from here on
  obtain ⟨same, starts⟩ := Lexeme.read_of_number (congrArg Lexeme.kind reads)
  rw [reads] at same
  have isNumber : (Lexeme.Numeral.read (t.raw.toList ++ rest)).kind = .number := by rw [← same]
  have numeral : IsNumeral t.raw.toList := by
    have fits := Lexeme.Numeral.read_isNumeral starts isNumber
    rwa [← same] at fits
  refine ⟨rest, slice, ⟨Pattern.mem_numeral.mpr numeral, List.prefix_append .., fun other matched front => ?_⟩, ?_⟩
  · have le := Lexeme.Numeral.length_le_read isNumber (Pattern.mem_numeral.mp matched) front
    rwa [← same] at le
  · rintro hex c next
    obtain ⟨mark, digits, chars, base, -, -⟩ := Pattern.mem_hexadecimal.mp hex
    have ends := Lexeme.Numeral.ends_of_hexadecimal isNumber base (by rw [← same, chars]) (by rw [← same])
    rw [← same] at ends
    obtain ⟨more, rfl⟩ := List.head?_eq_some_iff.mp next
    have outside := ends c more rfl
    simpa [and_comm] using outside

/-- A hexadecimal number inside a text, between two numbers that start alike. -/
theorem numbers_exact_hexadecimal :
    let text := "select 1..5,0x1F-00x1"
    let t : Token := ⟨.number, "0x1F", ⟨12, 1, 13⟩, 16⟩
    t ∈ (Scanner.ofText text).tokenize ∧ t.kind = .number ∧ t.raw.toList ∈ Pattern.hexadecimal.matches' ∧
      ∃ rest, IsSlice text.toList t.place.offset t.stop t.raw.toList rest ∧
        IsLongest Pattern.numeral.matches' t.raw.toList (t.raw.toList ++ rest) ∧
        ∀ c ∈ rest.head?, c ≠ '.' ∧ isWordChar c = false := by
  intro text t
  have mem : t ∈ (Scanner.ofText text).tokenize := by decide +kernel
  have hex : t.raw.toList ∈ Pattern.hexadecimal.matches' :=
    Pattern.mem_hexadecimal.mpr ⟨'x', ['1', 'F'], by decide, Or.inl rfl, by simp, List.all_eq_true.mp (by decide)⟩
  obtain ⟨rest, slice, longest, ends⟩ := (numbers_exact text).2 t mem rfl
  exact ⟨mem, rfl, hex, rest, slice, longest, ends hex⟩

end SelectSyntax
