import SelectSyntax.Proofs.Scanning

/-!
Written lexemes read back: a numeral, a word, a quoted text or a mark in front of a text that does not go
on with it is read as itself.
-/

set_option autoImplicit false
set_option relaxedAutoImplicit false

namespace SelectSyntax

open Text.CharClass (isBlank isHexDigit isWordChar isWordStart)
open Token (Kind Keyword)

/-- A text that is empty or starts with a character outside a class. -/
def Stops (p : Char → Bool) (rest : List Char) : Prop := ∀ c more, rest = c :: more → p c = false

theorem Stops.takeWhile {p : Char → Bool} {rest : List Char} (h : Stops p rest) (text : List Char) :
    (text ++ rest).takeWhile p = text.takeWhile p ∧
      (text ++ rest).dropWhile p = text.dropWhile p ++ rest := by
  induction text with
  | nil =>
      cases rest with
      | nil => exact ⟨rfl, rfl⟩
      | cons c more => simp [h c more rfl]
  | cons c text ih =>
      by_cases inside : p c = true
      · simp [inside, ih.1, ih.2]
      · simp [inside]

theorem Stops.run {p : Char → Bool} {rest : List Char} (h : Stops p rest) {run : List Char}
    (all : ∀ c ∈ run, p c = true) :
    (run ++ rest).takeWhile p = run ∧ (run ++ rest).dropWhile p = rest := by
  obtain ⟨taken, dropped⟩ := h.takeWhile []
  rw [List.nil_append] at taken dropped
  rw [List.takeWhile_append_of_pos all, List.dropWhile_append_of_pos all, taken, dropped]
  simp

theorem Stops.mono {p q : Char → Bool} {rest : List Char} (h : Stops q rest)
    (less : ∀ c, p c = true → q c = true) : Stops p rest := by
  intro c more same
  cases inside : p c with
  | false => rfl
  | true =>
      have outside := h c more same
      rw [less c inside] at outside
      cases outside

theorem isAlpha_iff {c : Char} :
    c.isAlpha = true ↔ ('A'.val ≤ c.val ∧ c.val ≤ 'Z'.val) ∨ ('a'.val ≤ c.val ∧ c.val ≤ 'z'.val) := by
  show (decide ('A'.val ≤ c.val ∧ c.val ≤ 'Z'.val) || ('a'.val ≤ c.val && c.val ≤ 'z'.val)) = true ↔ _
  simp only [Bool.or_eq_true, Bool.and_eq_true, decide_eq_true_eq]

theorem isWordStart_of_isDigit {c : Char} (h : c.isDigit = true) : isWordStart c = false := by
  have other : c.isAlpha ≠ true := by
    rw [Ne, isAlpha_iff]
    simp only [Char.isDigit, Bool.and_eq_true, decide_eq_true_eq, ge_iff_le,
      UInt32.le_iff_toNat_le] at h ⊢
    simp at h ⊢
    omega
  have line : c ≠ '_' := by
    rintro rfl
    simp at h
  simp [isWordStart, other, line]

theorem isWordChar_of_isWordStart {c : Char} (h : isWordStart c = true) : isWordChar c = true := by
  simp only [isWordStart, isWordChar, Char.isAlphanum, Bool.or_eq_true] at h ⊢
  rcases h with h | h
  · exact Or.inl (Or.inl h)
  · exact Or.inr h

theorem isWordStart_of_toUpper {c : Char} (h : c.toUpper.isUpper = true) : isWordStart c = true := by
  have alpha : c.isAlpha = true := by
    unfold Char.toUpper at h
    split at h
    · rename_i lower
      exact isAlpha_iff.mpr (Or.inr lower)
    · exact isAlpha_iff.mpr (Or.inl (of_decide_eq_true h))
  simp [isWordStart, alpha]

namespace Lexeme

/-- A text is read as a lexeme at its front, with nothing before it. -/
def ReadsAs (kind : Kind) (lexeme rest : List Char) : Prop :=
  Trivia.split (lexeme ++ rest) = ([], lexeme ++ rest) ∧ read (lexeme ++ rest) = ⟨kind, lexeme, rest⟩

/-- No gap starts with a character that is neither a blank nor starts a comment. -/
theorem Trivia.split_eq_nil {c : Char} {text : List Char} (blank : isBlank c = false)
    (dash : c = '-' → Stops (· == '-') text) (slash : c = '/' → Stops (· == '*') text) :
    split (c :: text) = ([], c :: text) := by
  cases text with
  | nil => simp [split, blank]
  | cons d text =>
      unfold split
      rw [if_neg (by simp [blank]), if_neg, if_neg]
      · rintro ⟨rfl, rfl⟩
        have other := slash rfl _ text rfl
        simp at other
      · rintro ⟨rfl, rfl⟩
        have other := dash rfl _ text rfl
        simp at other

/-- A word is read up to the first character that cannot continue it. -/
theorem readsAs_word {c : Char} {text rest : List Char} {kind : Kind} (start : isWordStart c = true)
    (all : ∀ d ∈ text, isWordChar d = true) (stops : Stops isWordChar rest)
    (found : kind = ((Keyword.ofChars? (c :: text)).map Kind.keyword).getD .identifier) :
    ReadsAs kind (c :: text) rest := by
  have first := isWordChar_of_isWordStart start
  have inside : ∀ d ∈ c :: text, isWordChar d = true := by
    intro d mem
    rcases List.mem_cons.mp mem with rfl | mem
    · exact first
    · exact all d mem
  have other : ∀ d, isWordStart d = false → c ≠ d := by
    rintro d no rfl
    simp [start] at no
  obtain ⟨taken, dropped⟩ := stops.run inside
  constructor
  · refine Trivia.split_eq_nil ?_ (fun h => absurd h (other _ rfl)) (fun h => absurd h (other _ rfl))
    simp only [isBlank, Bool.or_eq_false_iff, beq_eq_false_iff_ne]
    exact ⟨⟨⟨⟨other _ rfl, other _ rfl⟩, other _ rfl⟩, other _ rfl⟩, other _ rfl⟩
  · rw [List.cons_append, read, if_pos start, ← List.cons_append, readWord, taken, dropped, found]
    cases Keyword.ofChars? (c :: text) <;> rfl

theorem Keyword.spelling_isUpper (k : Keyword) :
    k.spelling.toList ≠ [] ∧ ∀ c ∈ k.spelling.toList, c.isUpper = true := by
  have all : (k.spelling.toList.all Char.isUpper && !k.spelling.toList.isEmpty) = true := by
    cases k <;> decide
  simp only [Bool.and_eq_true, List.all_eq_true, Bool.not_eq_true', List.isEmpty_eq_false_iff] at all
  exact ⟨all.2, all.1⟩

theorem word_of_ofText? {t : String} {k : Keyword} (h : Keyword.ofText? t = some k) :
    ∃ c text, t.toList = c :: text ∧ isWordStart c = true ∧ ∀ d ∈ text, isWordChar d = true := by
  obtain ⟨some_, upper⟩ := Keyword.spelling_isUpper k
  have same : k.spelling.toList = t.toList.map Char.toUpper := by
    have found := List.find?_some h
    simpa using found
  rw [same] at some_ upper
  have starts : ∀ c ∈ t.toList, isWordStart c = true := fun c mem =>
    isWordStart_of_toUpper (upper _ (List.mem_map_of_mem mem))
  cases chars : t.toList with
  | nil => simp [chars] at some_
  | cons c text =>
      rw [chars] at starts
      exact ⟨c, text, rfl, starts c (List.mem_cons_self ..), fun d mem =>
        isWordChar_of_isWordStart (starts d (List.mem_cons_of_mem _ mem))⟩

theorem readsAs_keyword {t : String} {k : Keyword} {rest : List Char}
    (h : Keyword.ofText? t = some k) (stops : Stops isWordChar rest) :
    ReadsAs (.keyword k) t.toList rest := by
  obtain ⟨c, text, chars, start, all⟩ := word_of_ofText? h
  have found : Keyword.ofChars? (c :: text) = some k := chars ▸ h
  rw [chars]
  exact readsAs_word start all stops (by rw [found]; rfl)

theorem Delimited.close?_double (q : Char) (text : List Char) {rest : List Char}
    (stops : Stops (· == q) rest) :
    close? q (Text.Doubled.double q text ++ q :: rest) =
      some (Text.Doubled.double q text ++ [q], rest) := by
  induction text with
  | nil =>
      cases rest with
      | nil => simp [Text.Doubled.double, close?]
      | cons d rest =>
          have other : d ≠ q := by simpa using stops d rest rfl
          simp [Text.Doubled.double, close?, other]
  | cons c text ih =>
      by_cases same : c = q
      · simp [Text.Doubled.double, close?, same, ih]
      · obtain ⟨d, more, long⟩ : ∃ d more, Text.Doubled.double q text ++ q :: rest = d :: more := by
          cases Text.Doubled.double q text with
          | nil => exact ⟨_, _, rfl⟩
          | cons d more => exact ⟨_, _, rfl⟩
        rw [Text.Doubled.double, if_neg same, List.cons_append, long, close?, if_neg same, ← long, ih]
        rfl

theorem readsAs_string (value : String) {rest : List Char} (stops : Stops (· == '\'') rest) :
    ReadsAs .string (Text.Doubled.quote '\'' value).toList rest := by
  have closes := Delimited.close?_double '\'' value.toList stops
  constructor
  · simp only [Text.Doubled.quote, String.toList_ofList, List.cons_append]
    exact Trivia.split_eq_nil rfl (by simp) (by simp)
  · simp only [Text.Doubled.quote, String.toList_ofList, List.cons_append, List.append_assoc,
      List.nil_append]
    rw [read, if_neg (by decide), if_neg (by decide), if_neg (by decide), if_neg (by decide),
      if_pos rfl, Delimited.read, closes]

theorem readsAs_quotedName (value : String) {rest : List Char} (stops : Stops (· == '"') rest) :
    ReadsAs .identifier (Text.Doubled.quote '"' value).toList rest := by
  have closes := Delimited.close?_double '"' value.toList stops
  constructor
  · simp only [Text.Doubled.quote, String.toList_ofList, List.cons_append]
    exact Trivia.split_eq_nil rfl (by simp) (by simp)
  · simp only [Text.Doubled.quote, String.toList_ofList, List.cons_append, List.append_assoc,
      List.nil_append]
    rw [read, if_neg (by decide), if_neg (by decide), if_neg (by decide), if_neg (by decide),
      if_neg (by decide), if_pos rfl, Delimited.read, closes]

theorem readsAs_name (value : String) {rest : List Char} (word : Stops isWordChar rest)
    (quote : Stops (· == '"') rest) :
    ReadsAs .identifier (SyntaxTree.Name.spelling value).toList rest := by
  unfold SyntaxTree.Name.spelling
  split
  · rename_i plain
    unfold SyntaxTree.Name.isPlain at plain
    split at plain
    · cases plain
    · rename_i c text chars
      simp only [Bool.and_eq_true, List.all_eq_true, Option.isNone_iff_eq_none] at plain
      obtain ⟨⟨start, all⟩, other⟩ := plain
      rw [Keyword.ofText?, chars] at other
      rw [chars]
      exact readsAs_word start all word (by rw [other]; rfl)
  · exact readsAs_quotedName value quote

namespace Numeral

def IsFraction (text : List Char) : Prop :=
  text = [] ∨ ∃ digits, text = '.' :: digits ∧ ∀ c ∈ digits, c.isDigit = true

/-- An exponent mark with an optional sign and digits after it, or nothing. -/
def IsExponent (text : List Char) : Prop :=
  text = [] ∨ ∃ e sign digits, text = e :: (sign ++ digits) ∧ (e = 'e' ∨ e = 'E') ∧
    (sign = [] ∨ sign = ['+'] ∨ sign = ['-']) ∧ digits ≠ [] ∧ ∀ c ∈ digits, c.isDigit = true

/-- A text that starts with a digit, or with a point and a digit. -/
def Starts (text : List Char) : Prop :=
  (∃ c more, text = c :: more ∧ c.isDigit = true) ∨
    ∃ d more, text = '.' :: d :: more ∧ d.isDigit = true

end Numeral

/-- The numerals: hexadecimal digits after a base mark, or decimal digits with at most one point and an
optional exponent, where a point at the front has a digit after it. -/
inductive IsNumeral : List Char → Prop where
  | hexadecimal {mark : Char} {digits : List Char} (base : mark = 'x' ∨ mark = 'X')
      (some : digits ≠ []) (all : ∀ c ∈ digits, isHexDigit c = true) :
      IsNumeral ('0' :: mark :: digits)
  | decimal {whole fraction exponent : List Char} (all : ∀ c ∈ whole, c.isDigit = true)
      (point : Numeral.IsFraction fraction) (power : Numeral.IsExponent exponent)
      (starts : Numeral.Starts (whole ++ fraction)) : IsNumeral (whole ++ (fraction ++ exponent))

namespace Numeral

private theorem takeWhile_isDigit (text : List Char) :
    ∀ c ∈ text.takeWhile Char.isDigit, c.isDigit = true := List.all_eq_true.mp List.all_takeWhile

private theorem mantissa_eq {text : List Char} (starts : Starts text) :
    ∃ whole fraction, (mantissa text).1 = whole ++ fraction ∧
      (∀ c ∈ whole, c.isDigit = true) ∧ IsFraction fraction ∧ Starts (whole ++ fraction) := by
  have front : ∀ fraction more, text.dropWhile Char.isDigit = fraction ++ more →
      (fraction = [] → more.head? ≠ some '.') → (∀ d more', fraction ++ more = '.' :: d :: more' →
        d.isDigit = true → ∃ more'', fraction = '.' :: d :: more'') →
      Starts (text.takeWhile Char.isDigit ++ fraction) := by
    intro fraction more rest noPoint point
    rcases starts with ⟨c, more', rfl, digit⟩ | ⟨d, more', rfl, digit⟩
    · exact Or.inl ⟨c, _, by rw [List.takeWhile_cons_of_pos digit, List.cons_append], digit⟩
    · have dropped : ('.' :: d :: more').dropWhile Char.isDigit = '.' :: d :: more' := rfl
      obtain ⟨more'', rfl⟩ := point d more' (rest.symm.trans dropped) digit
      exact Or.inr ⟨d, more'', rfl, digit⟩
  unfold mantissa
  dsimp only
  cases rest : text.dropWhile Char.isDigit with
  | nil =>
      refine ⟨_, [], (List.append_nil _).symm, takeWhile_isDigit text, Or.inl rfl, ?_⟩
      exact front [] [] rest (by simp) (by simp)
  | cons c more =>
      dsimp only
      split
      · rename_i point
        subst point
        refine ⟨_, _, rfl, takeWhile_isDigit text, Or.inr ⟨_, rfl, takeWhile_isDigit more⟩, ?_⟩
        refine front _ (more.dropWhile Char.isDigit) ?_ (by simp) ?_
        · rw [rest, List.cons_append, List.takeWhile_append_dropWhile]
        · intro d more' same digit
          rw [List.cons_append, List.takeWhile_append_dropWhile] at same
          cases same
          exact ⟨_, by rw [List.takeWhile_cons_of_pos digit]⟩
      · rename_i other
        refine ⟨_, [], (List.append_nil _).symm, takeWhile_isDigit text, Or.inl rfl, ?_⟩
        refine front [] (c :: more) rest (by simpa using other) ?_
        intro d more' same _
        cases same
        exact absurd rfl other

private theorem sign_eq (text : List Char) :
    (sign text).1 = [] ∨ (sign text).1 = ['+'] ∨ (sign text).1 = ['-'] := by
  unfold sign
  split
  · exact Or.inl rfl
  · split
    · rename_i plus
      rcases plus with rfl | rfl
      · exact Or.inr (Or.inl rfl)
      · exact Or.inr (Or.inr rfl)
    · exact Or.inl rfl

private theorem decimal_isNumeral {text : List Char} (starts : Starts text)
    (number : (decimal text).kind = .number) : IsNumeral (decimal text).text := by
  obtain ⟨whole, fraction, same, all, point, front⟩ := mantissa_eq starts
  have short : IsNumeral (mantissa text).1 := by
    rw [same, ← List.append_nil fraction]
    exact .decimal all point (Or.inl rfl) front
  unfold decimal at number ⊢
  cases rest : (mantissa text).2 with
  | nil =>
      simp only [rest]
      exact short
  | cons e more =>
      simp only [rest] at number ⊢
      split at number
      · rename_i mark
        rw [if_pos mark]
        dsimp only
        rw [same, List.append_assoc]
        refine .decimal all point (Or.inr ⟨e, _, _, rfl, mark, sign_eq more, ?_,
          takeWhile_isDigit _⟩) front
        intro empty
        simp [empty] at number
      · rename_i other
        rw [if_neg other]
        exact short

private theorem hexadecimal_isNumeral {mark : Char} {text : List Char} (base : mark = 'x' ∨ mark = 'X')
    (number : (hexadecimal '0' mark text).kind = .number) :
    IsNumeral (hexadecimal '0' mark text).text := by
  have all : ∀ c ∈ text.takeWhile isHexDigit, isHexDigit c = true :=
    List.all_eq_true.mp List.all_takeWhile
  unfold hexadecimal at number ⊢
  dsimp only at number ⊢
  split
  · rename_i empty
    simp [empty] at number
  · rename_i some_
    rw [if_neg some_] at number
    have nonempty : text.takeWhile isHexDigit ≠ [] := by simpa using some_
    cases rest : text.dropWhile isHexDigit with
    | nil => exact .hexadecimal base nonempty all
    | cons e more =>
        simp only [rest] at number ⊢
        split
        · rename_i bad
          rw [if_pos bad] at number
          cases number
        · exact .hexadecimal base nonempty all

theorem read_isNumeral {text : List Char} (starts : Starts text)
    (number : (read text).kind = .number) : IsNumeral (read text).text := by
  match text, starts, number with
  | [], starts, number => exact decimal_isNumeral starts number
  | [c], starts, number => exact decimal_isNumeral starts number
  | c :: d :: more, starts, number =>
      rw [read] at number ⊢
      by_cases base : c = '0' ∧ (d = 'x' ∨ d = 'X')
      · rw [if_pos base] at number ⊢
        obtain ⟨rfl, base⟩ := base
        exact hexadecimal_isNumeral base number
      · rw [if_neg base] at number ⊢
        exact decimal_isNumeral starts number

end Numeral

def EndsNumeral (rest : List Char) : Prop := Stops (fun c => isWordChar c || c == '.') rest

theorem isWordChar_of_isDigit {c : Char} (h : c.isDigit = true) : isWordChar c = true := by
  simp [isWordChar, Char.isAlphanum, h]

theorem isWordChar_of_isHexDigit {c : Char} (h : isHexDigit c = true) : isWordChar c = true := by
  simp only [isHexDigit, Bool.or_eq_true, Bool.and_eq_true, decide_eq_true_eq, Char.le_def] at h
  simp only [isWordChar, Char.isAlphanum, isAlpha_iff, Bool.or_eq_true]
  rcases h with (digit | lower) | upper
  · exact Or.inl (Or.inr digit)
  · exact Or.inl (Or.inl (Or.inr ⟨lower.1, UInt32.le_trans lower.2 (by decide)⟩))
  · exact Or.inl (Or.inl (Or.inl ⟨upper.1, UInt32.le_trans upper.2 (by decide)⟩))

theorem EndsNumeral.word {rest : List Char} (h : EndsNumeral rest) : Stops isWordChar rest :=
  Stops.mono h fun c inside => by simp [inside]

theorem EndsNumeral.digit {rest : List Char} (h : EndsNumeral rest) : Stops Char.isDigit rest :=
  h.word.mono fun _ => isWordChar_of_isDigit

namespace Numeral

private theorem stops_after_whole {p : Char → Bool} {fraction exponent rest : List Char}
    (point : IsFraction fraction) (power : IsExponent exponent) (stops : Stops p rest)
    (noPoint : fraction = [] ∨ p '.' = false) (noMark : p 'e' = false ∧ p 'E' = false) :
    Stops p (fraction ++ (exponent ++ rest)) := by
  intro c more same
  rcases point with rfl | ⟨digits, rfl, _⟩
  · rcases power with rfl | ⟨e, sign, digits, rfl, mark, _⟩
    · exact stops c more same
    · cases same
      rcases mark with rfl | rfl
      · exact noMark.1
      · exact noMark.2
  · cases same
    simpa using noPoint

private theorem mantissa_parts {whole fraction exponent rest : List Char}
    (all : ∀ c ∈ whole, c.isDigit = true) (point : IsFraction fraction) (power : IsExponent exponent)
    (ends : EndsNumeral rest) :
    mantissa (whole ++ (fraction ++ (exponent ++ rest))) = (whole ++ fraction, exponent ++ rest) := by
  obtain ⟨taken, dropped⟩ :=
    (stops_after_whole point power ends.digit (Or.inr rfl) ⟨rfl, rfl⟩).run all
  unfold mantissa
  dsimp only
  rw [taken, dropped]
  rcases point with rfl | ⟨digits, rfl, decimals⟩
  · have other : Stops (· == '.') (exponent ++ rest) :=
      stops_after_whole (Or.inl rfl) power (Stops.mono ends fun c inside => by simp at inside; simp [inside])
        (Or.inl rfl) ⟨rfl, rfl⟩
    rw [List.nil_append, List.append_nil]
    cases after : exponent ++ rest with
    | nil => rfl
    | cons c more =>
        have noPoint : c ≠ '.' := by simpa using other c more after
        simp only [if_neg noPoint]
  · obtain ⟨taken', dropped'⟩ := Stops.run
      (stops_after_whole (Or.inl (rfl : ([] : List Char) = [])) power ends.digit (Or.inl rfl) ⟨rfl, rfl⟩) decimals
    rw [List.nil_append] at taken' dropped'
    simp [taken', dropped']

theorem sign_of_digits {signs digits : List Char} (isSign : signs = [] ∨ signs = ['+'] ∨ signs = ['-'])
    (some_ : digits ≠ []) (all : ∀ c ∈ digits, c.isDigit = true) (rest : List Char) :
    sign (signs ++ (digits ++ rest)) = (signs, digits ++ rest) := by
  rcases isSign with rfl | rfl | rfl
  · obtain ⟨d, more, rfl⟩ := List.exists_cons_of_ne_nil some_
    have digit := all d (List.mem_cons_self ..)
    have other : ¬(d = '+' ∨ d = '-') := by
      rintro (rfl | rfl) <;> cases digit
    simp [sign, other]
  · rfl
  · rfl

private theorem decimal_append {whole fraction exponent rest : List Char}
    (all : ∀ c ∈ whole, c.isDigit = true) (point : IsFraction fraction) (power : IsExponent exponent)
    (ends : EndsNumeral rest) : decimal (whole ++ (fraction ++ (exponent ++ rest))) =
      ⟨.number, whole ++ (fraction ++ exponent), rest⟩ := by
  unfold decimal
  rw [mantissa_parts all point power ends]
  rcases power with rfl | ⟨e, signs, digits, rfl, mark, isSign, some_, decimals⟩
  · cases rest with
    | nil => simp
    | cons c more =>
        have other : ¬(c = 'e' ∨ c = 'E') := by
          have outside := ends.word c more rfl
          rintro (rfl | rfl) <;> simp [isWordChar] at outside
        simp [if_neg other]
  · obtain ⟨taken, dropped⟩ := ends.digit.run decimals
    have signed := sign_of_digits isSign some_ decimals rest
    simp [mark, signed, taken, dropped, some_]

private theorem read_decimal {text : List Char} (other : ∀ d more, text = '0' :: d :: more →
    ¬(d = 'x' ∨ d = 'X')) : read text = decimal text := by
  match text, other with
  | [], _ => rfl
  | [_], _ => rfl
  | c :: d :: more, other =>
      rw [read, if_neg]
      rintro ⟨rfl, base⟩
      exact other d more rfl base

private theorem stops_mark {whole fraction exponent rest : List Char} (all : ∀ c ∈ whole, c.isDigit = true)
    (point : IsFraction fraction) (power : IsExponent exponent) (ends : EndsNumeral rest) :
    Stops (fun d => d == 'x' || d == 'X') (whole ++ (fraction ++ (exponent ++ rest))) := by
  cases whole with
  | nil =>
      rw [List.nil_append]
      refine stops_after_whole point power (ends.word.mono fun d mark => ?_) (Or.inr rfl) ⟨rfl, rfl⟩
      simp only [Bool.or_eq_true, beq_iff_eq] at mark
      rcases mark with rfl | rfl <;> rfl
  | cons d whole =>
      rintro _ _ ⟨⟩
      have digit := all d (List.mem_cons_self ..)
      simp only [Bool.or_eq_false_iff, beq_eq_false_iff_ne]
      constructor <;> (rintro rfl; cases digit)

private theorem readsAs_hexadecimal {mark : Char} {digits rest : List Char} (base : mark = 'x' ∨ mark = 'X')
    (some_ : digits ≠ []) (all : ∀ c ∈ digits, isHexDigit c = true) (ends : EndsNumeral rest) :
    ReadsAs .number ('0' :: mark :: digits) rest := by
  obtain ⟨taken, dropped⟩ := (ends.word.mono fun _ => isWordChar_of_isHexDigit).run all
  refine ⟨Trivia.split_eq_nil rfl (by simp) (by simp), ?_⟩
  simp only [List.cons_append]
  rw [Lexeme.read, if_neg (by decide), if_pos (by decide), read, if_pos ⟨rfl, base⟩, hexadecimal, taken,
    dropped, if_neg (by simpa using some_)]
  cases rest with
  | nil => rfl
  | cons c more =>
      have outside := ends c more rfl
      simp only [Bool.or_eq_false_iff] at outside
      simp [outside]

private theorem readsAs_of_digit {c : Char} {whole fraction exponent rest : List Char}
    (all : ∀ d ∈ c :: whole, d.isDigit = true) (point : IsFraction fraction) (power : IsExponent exponent)
    (ends : EndsNumeral rest) : ReadsAs .number (c :: (whole ++ (fraction ++ exponent))) rest := by
  have digit := all c (List.mem_cons_self ..)
  have other := stops_mark (fun d mem => all d (List.mem_cons_of_mem c mem)) point power ends
  have numeral := decimal_append all point power ends
  constructor
  · refine Trivia.split_eq_nil ?_ ?_ ?_
    · simp only [isBlank, Bool.or_eq_false_iff, beq_eq_false_iff_ne]
      refine ⟨⟨⟨⟨?_, ?_⟩, ?_⟩, ?_⟩, ?_⟩ <;> (rintro rfl; cases digit)
    · rintro rfl
      cases digit
    · rintro rfl
      cases digit
  · simp only [List.cons_append, List.append_assoc] at numeral ⊢
    rw [Lexeme.read, if_neg (by simp [isWordStart_of_isDigit digit]), if_pos digit, read_decimal, numeral]
    intro d more chars base
    have outside := other d more (List.cons.inj chars).2
    simp only [Bool.or_eq_false_iff, beq_eq_false_iff_ne] at outside
    exact base.elim outside.1 outside.2

private theorem readsAs_of_point {d : Char} {more exponent rest : List Char} (digit : d.isDigit = true)
    (point : IsFraction ('.' :: d :: more)) (power : IsExponent exponent) (ends : EndsNumeral rest) :
    ReadsAs .number ('.' :: d :: (more ++ exponent)) rest := by
  have numeral := decimal_append (fun _ mem => absurd mem List.not_mem_nil) point power ends
  refine ⟨Trivia.split_eq_nil rfl (by simp) (by simp), ?_⟩
  simp only [List.nil_append, List.cons_append, List.append_assoc] at numeral ⊢
  rw [Lexeme.read, if_neg (by decide), if_neg (by decide), if_pos rfl, readDot, if_pos digit, read_decimal,
    numeral]
  simp

end Numeral

/-- A numeral is read up to a text that it cannot go on with. -/
theorem readsAs_number {text rest : List Char} (numeral : IsNumeral text) (ends : EndsNumeral rest) :
    ReadsAs .number text rest := by
  cases numeral with
  | hexadecimal base some_ all => exact Numeral.readsAs_hexadecimal base some_ all ends
  | @decimal whole fraction exponent all point power starts =>
      cases whole with
      | cons c whole => exact Numeral.readsAs_of_digit all point power ends
      | nil =>
          rcases starts with ⟨c, more, same, digit⟩ | ⟨d, more, rfl, digit⟩
          · -- a fraction starts with no digit
            rcases point with rfl | ⟨digits, rfl, _⟩
            · cases same
            · cases same
              cases digit
          · exact Numeral.readsAs_of_point digit point power ends

/-- The text of a lexeme fits its kind: a numeral where it is a number, and the spelling of a keyword
where it is one. -/
def Fits (kind : Kind) (text : List Char) : Prop :=
  (kind = .number → IsNumeral text) ∧ ∀ k, kind = .keyword k → Keyword.ofChars? text = some k

theorem Fits.of_other {kind : Kind} {text : List Char} (number : kind ≠ .number)
    (keyword : ∀ k, kind ≠ .keyword k) : Fits kind text :=
  ⟨fun same => absurd same number, fun k same => absurd same (keyword k)⟩

private theorem Numeral.read_fits {text : List Char} (starts : Numeral.Starts text) :
    Fits (Numeral.read text).kind (Numeral.read text).text := by
  refine ⟨Numeral.read_isNumeral starts, fun k same => ?_⟩
  rcases Numeral.read_kind text with number | ⟨f, fault⟩
  · cases number.symm.trans same
  · cases fault.symm.trans same

private theorem Operator.read_fits (c : Char) (text : List Char) :
    Fits (Operator.read c text).kind (Operator.read c text).text := by
  have pairs : ∀ p ∈ Operator.pairs, p.2 ≠ .number ∧ ∀ k, p.2 ≠ .keyword k := by
    simp [Operator.pairs]
  have singles : ∀ p ∈ Operator.singles, p.2 ≠ .number ∧ ∀ k, p.2 ≠ .keyword k := by
    simp [Operator.singles]
  rcases Operator.read_cases c text with ⟨d, more, _, mem, _⟩ | ⟨mem | ⟨f, fault⟩, _⟩
  · exact .of_other (pairs _ mem).1 (pairs _ mem).2
  · exact .of_other (singles _ mem).1 (singles _ mem).2
  · exact .of_other (by simp [fault]) (by simp [fault])

private theorem Delimited.read_fits {kind : Kind} {unclosed : Token.Fault} {opening closing : Char}
    {text : List Char} (number : kind ≠ .number) (keyword : ∀ k, kind ≠ .keyword k) :
    Fits (Delimited.read kind unclosed opening closing text).kind
      (Delimited.read kind unclosed opening closing text).text := by
  unfold Delimited.read
  split
  · exact .of_other number keyword
  · exact .of_other (by simp) (by simp)

private theorem readWord_fits (text : List Char) : Fits (readWord text).kind (readWord text).text := by
  refine ⟨fun same => ?_, fun k same => ?_⟩
  · simp only [readWord] at same
    split at same <;> cases same
  · simp only [readWord] at same ⊢
    split at same
    · rename_i found
      cases same
      exact found
    · cases same

theorem read_fits (text : List Char) : Fits (read text).kind (read text).text := by
  cases text with
  | nil => exact .of_other (by simp [read]) (by simp [read])
  | cons c text =>
      obtain ⟨reader, reads, same⟩ := exists_reader c
      rw [same]
      cases reads with
      | word => exact readWord_fits (c :: text)
      | numeral digit => exact Numeral.read_fits (Or.inl ⟨c, text, rfl, digit⟩)
      | dot =>
          cases text with
          | nil => exact .of_other (by simp [readDot]) (by simp [readDot])
          | cons d text =>
              rw [readDot]
              split
              · rename_i digit
                exact Numeral.read_fits (Or.inr ⟨d, text, rfl, digit⟩)
              · split
                · exact .of_other (by simp) (by simp)
                · exact .of_other (by simp) (by simp)
      | slash =>
          unfold readSlash
          split
          · exact .of_other (by simp) (by simp)
          · exact Operator.read_fits '/' text
      | string | quoted | bracketed => exact Delimited.read_fits (by simp) (by simp)
      | operator => exact Operator.read_fits c text

end Lexeme

end SelectSyntax
