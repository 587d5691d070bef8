/-!
Places in a text. A place counts what stands before it: the bytes of the UTF-8 form, the lines, and
the characters of the line. Walking over two texts in turn is walking over their concatenation.
-/

set_option autoImplicit false
set_option relaxedAutoImplicit false

namespace SelectSyntax.Text

/-- A point between two characters: its byte offset, counted from zero, and its line and column,
both counted from one. -/
structure Place where
  offset : Nat
  line : Nat
  column : Nat
  deriving DecidableEq, Repr

namespace Place

def start : Place := ⟨0, 1, 1⟩

instance : Inhabited Place := ⟨start⟩

/-- The point after one more character: a line feed opens a new line, any other character takes
one column, and the offset grows by the character's bytes. -/
def next (p : Place) (c : Char) : Place :=
  if c = '\n' then ⟨p.offset + c.utf8Size, p.line + 1, 1⟩
  else ⟨p.offset + c.utf8Size, p.line, p.column + 1⟩

def after (p : Place) (text : List Char) : Place := text.foldl next p

@[simp] theorem after_nil (p : Place) : p.after [] = p := rfl

@[simp] theorem after_cons (p : Place) (c : Char) (text : List Char) :
    p.after (c :: text) = (p.next c).after text := rfl

theorem after_append (p : Place) (first second : List Char) :
    p.after (first ++ second) = (p.after first).after second := List.foldl_append

def label (p : Place) : String :=
  "(" ++ toString p.line ++ "," ++ toString p.column ++ ")"

end Place

end SelectSyntax.Text
