import TagScript.Span
import TagScript.Text.Blank
import TagScript.Text.Lines

set_option autoImplicit false

/-! # Cursors

A cursor is a place in a text that is being read: what is left of the text, and the offset, line and
column at which that starts. A cursor moves forward one character at a time and keeps count, so that
the place of every element is at hand when it is needed.

The cursor `n` characters into a text has the rest, the line and the column that the text has at
offset `n` (`rest_advance`, `line_advance_start`, `column_advance_start`). -/

namespace TagScript.Markup

/-- A place in a text that is being read. -/
structure Cursor where
  rest : List Char
  offset : Nat
  line : Nat
  column : Nat
  deriving DecidableEq, Repr

namespace Cursor

/-- The cursor at the start of a text. -/
def start (text : List Char) : Cursor := ⟨text, 0, 1, 1⟩

/-- The cursor one character further. -/
def next (c : Cursor) : Cursor :=
  match c.rest with
  | [] => c
  | x :: rest =>
    if x = '\n' then ⟨rest, c.offset + 1, c.line + 1, 1⟩
    else ⟨rest, c.offset + 1, c.line, c.column + 1⟩

/-- The cursor `n` characters further. -/
def advance : (n : Nat) → Cursor → Cursor
  | 0, c => c
  | n + 1, c => advance n c.next

/-- The span from one cursor to another. -/
def span (file : String) (first last : Cursor) : Span :=
  { file
    startLine := first.line
    startColumn := first.column
    endLine := last.line
    endColumn := last.column }

/-! ## Moves -/

/-- The cursor after the characters of class `p` that stand at it. -/
def skipWhile (p : Char → Bool) (c : Cursor) : Cursor :=
  c.advance (c.rest.takeWhile p).length

/-- The cursor after the layout that stands at it. -/
def skipLayout (c : Cursor) : Cursor := c.skipWhile Text.isLayout

/-- The cursor after `expected`, if that stands at it. -/
def after? (expected : List Char) (c : Cursor) : Option Cursor :=
  if expected.isPrefixOf c.rest then some (c.advance expected.length) else none

/-- The cursor after the first occurrence of `terminator`. -/
def afterFirst? (terminator : List Char) (c : Cursor) : Option Cursor :=
  (Text.indexOf? terminator c.rest).map fun n => c.advance (n + terminator.length)

/-! ## What is left, and where -/

@[simp] theorem rest_next (c : Cursor) : c.next.rest = c.rest.drop 1 := by
  unfold next
  split
  · simp [*]
  · split <;> simp [*]

@[simp] theorem rest_advance (n : Nat) (c : Cursor) : (c.advance n).rest = c.rest.drop n := by
  induction n generalizing c with
  | zero => rfl
  | succ n ih => simp [advance, ih]

@[simp] theorem rest_skipWhile (p : Char → Bool) (c : Cursor) :
    (c.skipWhile p).rest = c.rest.dropWhile p := by
  have h : (c.rest.takeWhile p ++ c.rest.dropWhile p).drop (c.rest.takeWhile p).length
      = c.rest.dropWhile p := List.drop_left
  rwa [List.takeWhile_append_dropWhile, ← rest_advance] at h

@[simp] theorem rest_skipLayout (c : Cursor) : c.skipLayout.rest = Text.skipLayout c.rest :=
  rest_skipWhile Text.isLayout c

/-- A move goes as far as it says, and not beyond the end. -/
theorem offset_advance (n : Nat) (c : Cursor) :
    (c.advance n).offset = c.offset + min n c.rest.length := by
  induction n generalizing c with
  | zero => simp [advance]
  | succ n ih =>
      rw [advance, ih]
      cases hr : c.rest with
      | nil => simp [next, hr]
      | cons x rest =>
          have ho : c.next.offset = c.offset + 1 := by
            simp only [next, hr]
            split <;> rfl
          simp only [rest_next, hr, ho, List.drop_succ_cons, List.drop_zero, List.length_cons]
          omega

/-- A move counts the line feeds that it passes. -/
theorem line_advance (n : Nat) (c : Cursor) :
    (c.advance n).line = c.line + (c.rest.take n).count '\n' := by
  induction n generalizing c with
  | zero => simp [advance]
  | succ n ih =>
      rw [advance, ih]
      cases hr : c.rest with
      | nil => simp [next, hr]
      | cons x rest =>
          by_cases hx : x = '\n'
          · simp [next, hr, hx]
            omega
          · simp [next, hr, hx]

theorem advance_succ (n : Nat) (c : Cursor) : c.advance (n + 1) = (c.advance n).next := by
  induction n generalizing c with
  | zero => rfl
  | succ n ih => exact ih c.next

/-- The line of a cursor is that of its offset. -/
theorem line_advance_start (n : Nat) (text : List Char) :
    ((start text).advance n).line = Text.lineAt text n := by
  simp [line_advance, start, Text.lineAt, Nat.add_comm]

theorem lineStart_le (text : List Char) (n : Nat) : Text.lineStart text n ≤ n := by
  unfold Text.lineStart
  calc _ ≤ (text.take n).reverse.length := (List.dropWhile_suffix _).length_le
    _ = (text.take n).length := List.length_reverse
    _ ≤ n := List.length_take_le n text

/-- The column of a cursor is that of its offset. -/
theorem column_advance_start (n : Nat) (text : List Char) (h : n ≤ text.length) :
    ((start text).advance n).column = Text.columnAt text n := by
  induction n with
  | zero => simp [advance, start, Text.columnAt, Text.lineStart]
  | succ n ih =>
      have hn : n < text.length := h
      have hr : ((start text).advance n).rest = text[n] :: text.drop (n + 1) := by
        rw [rest_advance]
        exact List.drop_eq_getElem_cons hn
      have ht : text.take (n + 1) = text.take n ++ [text[n]] := by simp
      have hle := lineStart_le text n
      rw [advance_succ, next, hr]
      by_cases hx : text[n] = '\n'
      · simp only [hx, if_true, Text.columnAt, Text.lineStart, ht, List.reverse_append]
        simp [Nat.min_eq_left (Nat.le_of_lt hn)]
      · have hs : Text.lineStart text (n + 1) = Text.lineStart text n := by
          simp only [Text.lineStart, ht, List.reverse_append, List.reverse_cons, List.reverse_nil,
            List.nil_append, List.singleton_append, List.dropWhile_cons]
          simp [hx]
        simp only [hx, if_false, ih (Nat.le_of_lt hn), Text.columnAt, hs]
        omega

end Cursor

end TagScript.Markup
