import SelectSyntax.Proofs.Lexemes
import SelectSyntax.Proofs.Transcription

/-!
Quoted and bare texts. A name and a string are each written as one lexeme that stands for them; the lexeme of a
string is the only way to write what it stands for; and the names that are written bare are the texts that the
scanner takes for one identifier standing for itself.
-/

set_option autoImplicit false
set_option relaxedAutoImplicit false

namespace SelectSyntax

open SyntaxTree (Expr Name.isPlain Name.spelling)
open Text.CharClass (isWordChar isWordStart)
open Text.Doubled (double quote single unquote)
open Token (Kind Keyword)

namespace Text.Doubled

theorem length_single_le (q : Char) (text : List Char) : (single q text).length ≤ text.length := by
  induction text using single.induct q with
  | case1 => exact Nat.le_refl _
  | case2 c => exact Nat.le_refl _
  | case3 c d text both ih =>
      rw [single, if_pos both]
      simp only [List.length_cons]
      omega
  | case4 c d text other ih =>
      rw [single, if_neg other]
      simp only [List.length_cons] at ih ⊢
      omega

theorem length_inner_le (c : Char) (text : List Char) : (inner (c :: text)).length ≤ text.length := by
  rw [inner]
  split
  · exact Nat.zero_le _
  · split
    · rw [List.length_dropLast]
      exact Nat.sub_le ..
    · exact Nat.zero_le _

/-- What a delimited text stands for is shorter than the text, and so another one. -/
theorem unquote_ne {q : Char} {raw : String} (some_ : raw ≠ "") : unquote q raw ≠ raw := by
  intro same
  have length := congrArg String.length same
  obtain ⟨c, text, chars⟩ := List.exists_cons_of_ne_nil (mt String.toList_eq_nil_iff.mp some_)
  have shorter := Nat.le_trans (length_single_le q (inner raw.toList)) (chars ▸ length_inner_le c text)
  rw [unquote, String.length_ofList, ← String.length_toList, chars, List.length_cons] at length
  rw [chars] at shorter
  omega

end Text.Doubled

namespace Lexeme

/-- A delimited text up to its closing delimiter is a text with its delimiters doubled. -/
theorem Delimited.close?_eq_double {q : Char} {text : List Char} {r : List Char × List Char}
    (found : close? q text = some r) : ∃ value, r.1 = double q value ++ [q] := by
  induction text using close?.induct q generalizing r with
  | case1 => cases found
  | case2 =>
      simp only [close?, if_true, Option.some.injEq] at found
      exact ⟨[], found ▸ rfl⟩
  | case3 c other => simp [close?, other] at found
  | case4 text ih =>
      simp only [close?, if_true, Option.map_eq_some_iff] at found
      obtain ⟨r', found, rfl⟩ := found
      obtain ⟨value, same⟩ := ih found
      exact ⟨q :: value, by simp [double, same]⟩
  | case5 d text other =>
      simp only [close?, if_true, if_neg other, Option.some.injEq] at found
      exact ⟨[], found ▸ rfl⟩
  | case6 c d text other ih =>
      simp only [close?, if_neg other, Option.map_eq_some_iff] at found
      obtain ⟨r', found, rfl⟩ := found
      obtain ⟨value, same⟩ := ih found
      exact ⟨c :: value, by simp [double, other, same]⟩

/-- The lexeme of a string is written from what it stands for. -/
theorem Regular.eq_quote {chars : List Char} (h : Regular .string chars) :
    ∃ value : String, chars = (quote '\'' value).toList := by
  generalize string : Kind.string = kind at h
  cases h with
  | @word c text start all =>
      cases found : Keyword.ofChars? (c :: text) <;> simp [found] at string
  | number | dot | quoted | bracketed => cases string
  | @string text closes =>
      obtain ⟨value, same⟩ := Delimited.close?_eq_double (closes [] (by intro _ _ same; cases same))
      exact ⟨String.ofList value, by simp [quote, show text = _ from same]⟩
  | pair mem =>
      have others : ∀ p ∈ Operator.pairs, p.2 ≠ .string := by simp [Operator.pairs]
      exact absurd string.symm (others _ mem)
  | single mem =>
      have others : ∀ p ∈ Operator.singles, p.2 ≠ .string := by simp [Operator.singles]
      exact absurd string.symm (others _ mem)

/-- The lexeme of an identifier that stands for itself is a bare name. -/
theorem Regular.isPlain {text : String} (h : Regular .identifier text.toList)
    (itself : (Symbol.ofText .identifier text).text = text) : Name.isPlain text = true := by
  generalize identifier : Kind.identifier = kind at h
  generalize chars : text.toList = cs at h
  have nonempty : ∀ c more, text.toList = c :: more → text ≠ "" := by
    rintro c more same rfl
    cases same
  cases h with
  | @word c more start all =>
      have other : Keyword.ofText? text = none := by
        rw [Keyword.ofText?, chars]
        cases found : Keyword.ofChars? (c :: more) with
        | none => rfl
        | some k => simp [found] at identifier
      simp only [Name.isPlain, chars, start, List.all_eq_true.mpr all, other, Option.isNone_none, Bool.and_self]
  | number | dot | string => cases identifier
  | quoted | bracketed =>
      simp only [Symbol.ofText, Token.symbol, Token.value, chars] at itself
      exact absurd itself (Text.Doubled.unquote_ne (nonempty _ _ chars))
  | pair mem =>
      have others : ∀ p ∈ Operator.pairs, p.2 ≠ .identifier := by simp [Operator.pairs]
      exact absurd identifier.symm (others _ mem)
  | single mem =>
      have others : ∀ p ∈ Operator.singles, p.2 ≠ .identifier := by simp [Operator.singles]
      exact absurd identifier.symm (others _ mem)

end Lexeme

namespace Scanner

/-- A text that is exactly one token of a kind for the scanner, and the token stands for a value. -/
def IsOne (kind : Kind) (text value : String) : Prop :=
  ∃ t last, (ofText text).tokenize = [t, last] ∧ t.kind = kind ∧ t.raw = text ∧ t.value = value ∧ last.kind = .eof

/-- A text that is read as a lexeme up to its end is one token. -/
theorem isOne_of_readsAs {kind : Kind} {text value : String} (live : kind.isTerminal = false)
    (reads : Lexeme.ReadsAs kind text.toList []) (stands : Symbol.ofText kind text = ⟨kind, value⟩) :
    IsOne kind text value := by
  have lexemes := Lexeme.all_of_readsAs reads live
  rw [List.append_nil, Lexeme.all_nil, String.ofList_toList, ← spelled_ofText] at lexemes
  obtain ⟨t, rest, tokens, first, more⟩ := List.map_eq_cons_iff.mp lexemes
  obtain ⟨last, rfl, ending⟩ := List.map_eq_singleton_iff.mp more
  obtain ⟨rfl, rfl⟩ := Prod.mk.inj first
  exact ⟨t, last, tokens, rfl, rfl, congrArg Symbol.text stands, congrArg Prod.fst ending⟩

/-- The tokens of a text that are neither faults nor its end are regular lexemes. -/
theorem regular_of_mem {text : String} {t : Token} (mem : t ∈ (ofText text).tokenize)
    (live : t.kind.isTerminal = false) : Lexeme.Regular t.kind t.raw.toList := by
  have spelled : t.spelled ∈ Lexeme.all text.toList := spelled_ofText text ▸ List.mem_map_of_mem mem
  obtain ⟨rest, same⟩ := Lexeme.exists_read_of_mem_all spelled
  obtain ⟨kind, raw⟩ := Prod.mk.inj same
  rw [kind] at live ⊢
  rw [raw, String.toList_ofList]
  exact Lexeme.read_regular live

private theorem stops_nil (p : Char → Bool) : Stops p [] := by
  intro c more same
  cases same

theorem isOne_name (value : String) : IsOne .identifier (Name.spelling value) value :=
  isOne_of_readsAs rfl (Lexeme.readsAs_name value (stops_nil _) (stops_nil _)) (Symbol.ofText_name value)

theorem toSql_string (value : String) : (Expr.string value).toSql = quote '\'' value := by
  simp [Expr.toSql, Render.expr, Render.Piece.join, Render.Piece.text]

theorem isOne_string (value : String) : IsOne .string (Expr.string value).toSql value := by
  rw [toSql_string]
  exact isOne_of_readsAs rfl (Lexeme.readsAs_string value (stops_nil _)) (Symbol.ofText_string value)

/-- The names that are written bare are the texts that are one identifier standing for itself. -/
theorem isPlain_iff {name : String} : Name.isPlain name = true ↔ IsOne .identifier name name := by
  constructor
  · intro plain
    have bare := isOne_name name
    rwa [Name.spelling, if_pos plain] at bare
  · rintro ⟨t, last, tokens, kind, raw, value, -⟩
    have regular := regular_of_mem (tokens ▸ List.mem_cons_self) (t := t) (by rw [kind]; rfl)
    rw [kind, raw] at regular
    have itself : (Symbol.ofText t.kind t.raw).text = name := value
    rw [kind, raw] at itself
    exact regular.isPlain itself

theorem toSql_value {text : String} {t : Token} (mem : t ∈ (ofText text).tokenize) (string : t.kind = .string) :
    (Expr.string t.value).toSql = t.raw := by
  have regular := regular_of_mem mem (by rw [string]; rfl)
  rw [string] at regular
  obtain ⟨value, same⟩ := regular.eq_quote
  have raw : t.raw = quote '\'' value := String.toList_injective same
  rw [toSql_string, Token.value, string, raw]
  exact congrArg _ (Text.Doubled.unquote_quote rfl value)

end Scanner

/-- Every text is what one identifier and one string stand for, each written as one token; a name is bare exactly
where it is itself that token; and every string token of a text is what is written for what it stands for. -/
theorem quoting_exact (text : String) :
    Scanner.IsOne .identifier (Name.spelling text) text ∧
      Scanner.IsOne .string (Expr.string text).toSql text ∧
      (Name.isPlain text = true ↔ Scanner.IsOne .identifier text text) ∧
      ∀ t ∈ (Scanner.ofText text).tokenize, t.kind = .string → (Expr.string t.value).toSql = t.raw :=
  ⟨Scanner.isOne_name text, Scanner.isOne_string text, Scanner.isPlain_iff,
    fun _ mem string => Scanner.toSql_value mem string⟩

/-- A string with a quote inside and one at its end. -/
theorem quoting_exact_quotes :
    let text := "select 'it''s''' from t"
    let t : Token := ⟨.string, "'it''s'''", ⟨7, 1, 8⟩, 16⟩
    t ∈ (Scanner.ofText text).tokenize ∧ t.kind = .string ∧ t.value = "it's'" ∧
      (Expr.string t.value).toSql = t.raw := by
  intro text t
  have mem : t ∈ (Scanner.ofText text).tokenize := by decide +kernel
  exact ⟨mem, rfl, by decide +kernel, (quoting_exact text).2.2.2 t mem rfl⟩

end SelectSyntax
