import TagScript.Text.Split

set_option autoImplicit false

/-! # Lines, and places in a text

Lines are separated by line feeds; a text with `n` line feeds has `n + 1` lines. A place in a text
is an offset counted in characters; its line and column are counted from one. -/

namespace TagScript.Text

/-- The lines of a text, without the line feeds between them. -/
def lines (s : List Char) : List (List Char) := splitAtChar '\n' s

/-- A text has one line more than it has line feeds. -/
theorem length_lines (s : List Char) : (lines s).length = s.count '\n' + 1 :=
  length_splitAtChar '\n' s

/-- The space before a line of an outline: two columns for each level. -/
def indentation (level : Nat) : String :=
  String.ofList (List.replicate (2 * level) ' ')

/-- Line number of an offset: one more than the line feeds before it. -/
def lineAt (s : List Char) (offset : Nat) : Nat :=
  (s.take offset).count '\n' + 1

/-- Offset of the first character of the line that holds the offset. -/
def lineStart (s : List Char) (offset : Nat) : Nat :=
  ((s.take offset).reverse.dropWhile (· ≠ '\n')).length

/-- Column number of an offset: its distance from the start of its line, counted from one. -/
def columnAt (s : List Char) (offset : Nat) : Nat :=
  offset - lineStart s offset + 1

theorem one_le_lineAt (s : List Char) (offset : Nat) : 1 ≤ lineAt s offset :=
  Nat.le_add_left ..

theorem one_le_columnAt (s : List Char) (offset : Nat) : 1 ≤ columnAt s offset :=
  Nat.le_add_left ..

/-- The text with every carriage return, alone or before a line feed, read as one line feed. -/
def unifyNewlines : List Char → List Char
  | [] => []
  | '\r' :: '\n' :: rest => '\n' :: unifyNewlines rest
  | c :: rest => (if c = '\r' then '\n' else c) :: unifyNewlines rest

/-- A text without carriage returns is kept as it is. -/
theorem unifyNewlines_of_not_mem (s : List Char) (h : '\r' ∉ s) : unifyNewlines s = s := by
  fun_induction unifyNewlines s with
  | case1 => rfl
  | case2 rest ih => simp at h
  | case3 c rest _ ih =>
      simp only [List.mem_cons, not_or] at h
      rw [ih h.2, if_neg (fun e => h.1 e.symm)]

end TagScript.Text
