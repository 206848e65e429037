set_option autoImplicit false

/-! # Blank characters

Two classes of blank character are in use. `isBlank` is the wide class that is trimmed from both
ends of a text; `isLayout` is the narrow class (space, tab, line feed, carriage return) that may
stand between the parts of a markup tag. -/

namespace TagScript.Text

/-- A character that trimming removes: the ASCII control blanks and separators, the space, the
    next-line character, and every space, line or paragraph separator of Unicode. -/
def isBlank (c : Char) : Bool :=
  let n := c.toNat
  (9 ≤ n && n ≤ 13) || (28 ≤ n && n ≤ 32) || n == 0x85 || n == 0xA0 || n == 0x1680
    || (0x2000 ≤ n && n ≤ 0x200A) || n == 0x2028 || n == 0x2029 || n == 0x202F || n == 0x205F
    || n == 0x3000

/-- A character that may stand between the parts of a tag. -/
def isLayout (c : Char) : Bool :=
  c == ' ' || c == '\t' || c == '\n' || c == '\r'

/-- The text without the characters of class `p` at its end. -/
def dropTrailing (p : Char → Bool) (s : List Char) : List Char :=
  (s.reverse.dropWhile p).reverse

/-- The text without the blanks at both ends. -/
def trim (s : List Char) : List Char :=
  dropTrailing isBlank (s.dropWhile isBlank)

/-- The text after the layout characters at its start. -/
def skipLayout (s : List Char) : List Char :=
  s.dropWhile isLayout

@[simp] theorem skipLayout_nil : skipLayout [] = [] := rfl

end TagScript.Text
