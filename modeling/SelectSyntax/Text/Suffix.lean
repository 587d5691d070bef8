/-!
Suffixes of a text by byte offset. An offset that falls inside a character, or past the end, cuts
nowhere.
-/

set_option autoImplicit false
set_option relaxedAutoImplicit false

namespace SelectSyntax.Text.Suffix

/-- The text from a byte offset on, if the offset falls between two characters or at an end. -/
def fromByte? : Nat → List Char → Option (List Char)
  | 0, text => some text
  | _ + 1, [] => none
  | n + 1, c :: text =>
      if c.utf8Size ≤ n + 1 then fromByte? (n + 1 - c.utf8Size) text else none

@[simp] theorem fromByte?_zero (text : List Char) : fromByte? 0 text = some text := by
  cases text <;> rfl

end SelectSyntax.Text.Suffix
