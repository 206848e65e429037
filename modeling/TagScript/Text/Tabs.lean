set_option autoImplicit false

/-! # Tab expansion

Source text is read with its tabs replaced by spaces up to the next multiple of eight columns.
A line feed or a carriage return starts a new row of columns; every other character is one
column wide. -/

namespace TagScript.Text

/-- Distance between two tab stops. -/
def tabStop : Nat := 8

/-- The text with its tabs expanded, its first character standing at column `column`. -/
def expandTabsFrom (column : Nat) : List Char → List Char
  | [] => []
  | c :: rest =>
    if c = '\t' then
      let width := tabStop - column % tabStop
      List.replicate width ' ' ++ expandTabsFrom (column + width) rest
    else if c = '\n' ∨ c = '\r' then
      c :: expandTabsFrom 0 rest
    else
      c :: expandTabsFrom (column + 1) rest

/-- The text with its tabs expanded. -/
def expandTabs (s : List Char) : List Char :=
  expandTabsFrom 0 s

/-- A text without tabs is its own expansion. -/
theorem expandTabsFrom_of_not_mem (column : Nat) (s : List Char) (h : '\t' ∉ s) :
    expandTabsFrom column s = s := by
  induction s generalizing column with
  | nil => rfl
  | cons c rest ih =>
      simp only [List.mem_cons, not_or] at h
      have hc : c ≠ '\t' := fun e => h.1 e.symm
      unfold expandTabsFrom
      split
      · exact absurd ‹c = '\t'› hc
      · split <;> rw [ih _ h.2]

end TagScript.Text
