/-!
Doubled delimiters. Inside a delimited text the delimiter is written twice; reading the text back
takes each pair for one. Main statement: reading back undoes writing.
-/

set_option autoImplicit false
set_option relaxedAutoImplicit false

namespace SelectSyntax.Text.Doubled

def double (q : Char) : List Char → List Char
  | [] => []
  | c :: text => if c = q then q :: q :: double q text else c :: double q text

/-- Every two delimiters in a row, taken from the left, stand for one. -/
def single (q : Char) : List Char → List Char
  | [] => []
  | [c] => [c]
  | c :: d :: text =>
      if c = q ∧ d = q then q :: single q text else c :: single q (d :: text)

private theorem single_cons_of_ne (q c : Char) (text : List Char) (h : c ≠ q) :
    single q (c :: text) = c :: single q text := by
  cases text with
  | nil => rfl
  | cons d text => simp [single, h]

theorem single_double (q : Char) (text : List Char) : single q (double q text) = text := by
  induction text with
  | nil => rfl
  | cons c text ih =>
      by_cases h : c = q
      · simp [double, single, h, ih]
      · rw [double, if_neg h, single_cons_of_ne q c _ h, ih]

/-- The text between the first and the last byte; empty unless both are characters of one byte and
not the same one. -/
def inner : List Char → List Char
  | [] => []
  | first :: text =>
      match text.getLast? with
      | none => []
      | some last =>
          if first.utf8Size = 1 ∧ last.utf8Size = 1 then text.dropLast else []

def unquote (q : Char) (raw : String) : String := String.ofList (single q (inner raw.toList))

def quote (q : Char) (value : String) : String :=
  String.ofList (q :: (double q value.toList ++ [q]))

end SelectSyntax.Text.Doubled
