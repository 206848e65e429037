import TagScript.Text.Blank

set_option autoImplicit false

/-! # Finding pieces and splitting texts

Splitting at a character or at a delimiter gives the pieces between the occurrences, one more than
there are occurrences. The words of a text are what its blanks leave. -/

namespace TagScript.Text

/-! ## Finding -/

/-- The text after `expected`, if it starts so. -/
def after? (expected s : List Char) : Option (List Char) :=
  if expected.isPrefixOf s then some (s.drop expected.length) else none

/-- The offset of the first occurrence of a piece. -/
def indexOf? (piece : List Char) : List Char → Option Nat
  | [] => if piece.isEmpty then some 0 else none
  | c :: rest =>
    if piece.isPrefixOf (c :: rest) then some 0 else (indexOf? piece rest).map (· + 1)

/-- Whether a piece occurs in the text. -/
def occursIn (piece s : List Char) : Bool := (indexOf? piece s).isSome

/-! ## Splitting -/

/-- The pieces of a text between the occurrences of a character. -/
def splitAtChar (separator : Char) : List Char → List (List Char)
  | [] => [[]]
  | c :: rest =>
    if c = separator then [] :: splitAtChar separator rest
    else match splitAtChar separator rest with
      | [] => [[c]]
      | piece :: more => (c :: piece) :: more

/-- A text has one piece more than it has separators. -/
theorem length_splitAtChar (separator : Char) (s : List Char) :
    (splitAtChar separator s).length = s.count separator + 1 := by
  induction s with
  | nil => rfl
  | cons c rest ih =>
      unfold splitAtChar
      split
      · rename_i hc
        simp [hc, ih]
      · rename_i hc
        split
        · rename_i h
          simp [h] at ih
        · rename_i piece more h
          rw [h] at ih
          simpa [List.count_cons, hc] using ih

theorem splitAtChar_ne_nil (separator : Char) (s : List Char) : splitAtChar separator s ≠ [] := by
  intro h
  have hl := length_splitAtChar separator s
  simp [h] at hl

/-- No piece holds the separator. -/
theorem not_mem_of_mem_splitAtChar (separator : Char) (s piece : List Char)
    (h : piece ∈ splitAtChar separator s) : separator ∉ piece := by
  induction s generalizing piece with
  | nil =>
      simp only [splitAtChar, List.mem_singleton] at h
      simp [h]
  | cons c rest ih =>
      unfold splitAtChar at h
      split at h
      · rcases List.mem_cons.1 h with rfl | h
        · simp
        · exact ih piece h
      · rename_i hc
        split at h
        · simp only [List.mem_singleton] at h
          simp [h, Ne.symm hc]
        · rename_i first more hs
          rcases List.mem_cons.1 h with rfl | h
          · have hf := ih first (by simp [hs])
            simp [hf, Ne.symm hc]
          · exact ih piece (by simp [hs, h])

/-- The words of a text: its longest runs of characters that are not blank. -/
def words (s : List Char) : List (List Char) :=
  (s.splitBy fun a b => isBlank a == isBlank b).filter fun run => !run.any isBlank

/-- The pieces of a text between the occurrences of a delimiter, found from left to right; the
    first `skip` characters belong to an occurrence already found. -/
def splitFrom (delimiter : List Char) : (skip : Nat) → List Char → List (List Char)
  | _, [] => [[]]
  | skip + 1, _ :: rest => splitFrom delimiter skip rest
  | 0, c :: rest =>
    if delimiter.isPrefixOf (c :: rest) then
      [] :: splitFrom delimiter (delimiter.length - 1) rest
    else match splitFrom delimiter 0 rest with
      | [] => [[c]]
      | piece :: more => (c :: piece) :: more

/-- The pieces of a text between the occurrences of a delimiter that is not empty. -/
def splitAtText (delimiter s : List Char) : List (List Char) :=
  splitFrom delimiter 0 s

end TagScript.Text
