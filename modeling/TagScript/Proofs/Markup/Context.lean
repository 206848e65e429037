import TagScript.Markup.Report
import TagScript.Proofs.Markup.Columns

set_option autoImplicit false

/-! # What a parse error shows

A parse error shows some numbered lines with a caret between two of them (`markedContext`), and the
text that stands at its place. For the line and column of a place of the source the context is cut
around the line that holds the place (`contextOf_eq`), and the text found starts there
(`foundAt?_of_not_blank`). The caret stands below the place as long as line numbers have at most
four digits (`length_lineNumber`). -/

namespace TagScript.Markup

open Text (lines lastLine lineAt columnAt)

/-! ## The context -/

/-- Lines as the context shows them: numbered from `first` on. -/
def numbered (first : Nat) (texts : List (List Char)) : List String :=
  (texts.zipIdx first).map fun (text, number) =>
    lineNumber number ++ ": " ++ String.ofList text

/-- A caret with `indent` spaces before it. -/
def caretLine (indent : Nat) : String :=
  String.ofList (List.replicate indent ' ') ++ "^ Error here"

/-- A line of the source with two lines on either side, as far as there are any, and a caret right
    below it. -/
def markedContext (source : List Char) (line indent : Nat) : String :=
  "\n".intercalate
    (numbered (line - 3 + 1) (((lines source).take line).drop (line - 3)) ++
      caretLine indent :: numbered (line + 1) (((lines source).drop line).take 2))

theorem numbered_append (first : Nat) (s t : List (List Char)) :
    numbered first (s ++ t) = numbered first s ++ numbered (first + s.length) t := by
  rw [numbered, List.zipIdx_append, List.map_append]
  rfl

theorem numberedLines_append (line column : Int) (first : Nat) (s t : List (List Char)) :
    numberedLines line column first (s ++ t)
      = numberedLines line column first s ++ numberedLines line column (first + s.length) t := by
  induction s generalizing first with
  | nil => rfl
  | cons text s ih =>
      have hnext : first + 1 + s.length = first + (s.length + 1) := by omega
      simp only [List.cons_append, numberedLines, ih, List.length_cons, hnext]
      split <;> rfl

/-- Lines other than the marked one are only numbered. -/
theorem numberedLines_eq {line column : Int} {first : Nat} {s : List (List Char)}
    (h : (first : Int) + s.length ≤ line ∨ line < first) :
    numberedLines line column first s = numbered first s := by
  induction s generalizing first with
  | nil => rfl
  | cons text s ih =>
      rw [List.length_cons] at h
      have hother : (first : Int) ≠ line := by omega
      rw [numberedLines, if_neg hother, ih (by omega)]
      rfl

/-- The caret comes right after the line that is marked. -/
theorem numberedLines_marked (first column : Nat) (above below : List (List Char))
    (text : List Char) :
    numberedLines ((first + above.length : Nat) : Int) column first (above ++ text :: below)
      = numbered first (above ++ [text])
        ++ caretLine (6 + (column - 1)) :: numbered (first + above.length + 1) below := by
  have hcolumn : ((column : Int) - 1).toNat = column - 1 := by omega
  rw [numberedLines_append, numberedLines_eq (.inl (by omega)), numberedLines, if_pos rfl,
    numberedLines_eq (.inr (by omega)), numbered_append, hcolumn, List.append_assoc]
  rfl

/-- The context around a line of the source. -/
theorem contextOf_eq {source : List Char} {line column : Nat} (hline : 1 ≤ line)
    (hlast : line ≤ (lines source).length) :
    contextOf source line column = markedContext source line (6 + (column - 1)) := by
  obtain ⟨above, text, below, hlines, rfl⟩ : ∃ above text below,
      lines source = above ++ text :: below ∧ line = above.length + 1 := by
    have hget : line - 1 < (lines source).length := by omega
    refine ⟨(lines source).take (line - 1), (lines source)[line - 1],
      (lines source).drop (line - 1 + 1), ?_, ?_⟩
    · rw [← List.drop_eq_getElem_cons hget, List.take_append_drop]
    · rw [List.length_take, Nat.min_eq_left (Nat.le_of_lt hget)]
      omega
  have hfirst : ((above.length + 1 : Nat) - 2 - 1 : Int).toNat = above.length + 1 - 3 := by omega
  have hend : (min ((lines source).length : Int) ((above.length + 1 : Nat) + 2)).toNat
      = above.length + (min 2 below.length + 1) := by
    rw [hlines, List.length_append, List.length_cons]
    omega
  have hdrop : ∀ rest, (above ++ rest).drop (above.length + 1 - 3)
      = above.drop (above.length + 1 - 3) ++ rest := fun rest =>
    List.drop_append_of_le_length (by omega)
  have hnumber : above.length + 1 - 3 + 1 + (above.drop (above.length + 1 - 3)).length
      = above.length + 1 := by
    rw [List.length_drop]
    omega
  have hshown : ((lines source).take (above.length + 1)).drop (above.length + 1 - 3)
      = above.drop (above.length + 1 - 3) ++ [text] := by
    rw [hlines, List.take_length_add_append, hdrop]
    rfl
  have hbelow : ((lines source).drop (above.length + 1)).take 2 = below.take 2 := by
    rw [hlines, List.drop_length_add_append]
    rfl
  have hmarked := numberedLines_marked (above.length + 1 - 3 + 1) column
    (above.drop (above.length + 1 - 3)) (below.take 2) text
  rw [hnumber] at hmarked
  rw [contextOf, markedContext, hfirst, hend, hshown, hbelow, hlines, List.take_length_add_append,
    List.take_succ_cons, ← List.take_eq_take_min, hdrop, hmarked]

theorem exists_intercalate (separator : String) (above below : List String) :
    ∃ u v, ∀ text, separator.intercalate (above ++ text :: below) = u ++ text ++ v := by
  induction above with
  | nil =>
      cases below with
      | nil => exact ⟨"", "", fun text => by simp⟩
      | cons next below =>
          refine ⟨"", separator ++ separator.intercalate (next :: below), fun text => ?_⟩
          simp [String.intercalate_cons_cons, String.append_assoc]
  | cons first above ih =>
      obtain ⟨u, v, h⟩ := ih
      refine ⟨first ++ separator ++ u, v, fun text => ?_⟩
      rw [List.cons_append, String.intercalate_cons_of_ne_nil (by simp), h]
      simp only [String.append_assoc]

/-- The caret can be read off the context. -/
theorem markedContext_inj {source : List Char} {line indent indent' : Nat}
    (h : markedContext source line indent = markedContext source line indent') :
    indent = indent' := by
  unfold markedContext at h
  obtain ⟨u, v, hsplit⟩ := exists_intercalate "\n"
    (numbered (line - 3 + 1) (((lines source).take line).drop (line - 3)))
    (numbered (line + 1) (((lines source).drop line).take 2))
  rw [hsplit, hsplit] at h
  have hlength := congrArg String.length h
  simp only [caretLine, String.length_append, String.length_ofList, List.length_replicate]
    at hlength
  omega

/-- Line numbers stand in four columns as long as they have no more than four digits. -/
theorem length_lineNumber {n : Nat} : (lineNumber n).length = 4 ↔ n < 10000 := by
  have hdigits : (toString n).length ≤ 4 ↔ n < 10 ^ 4 := by
    rw [← Nat.length_toDigits_le_iff (by decide) (by decide)]
    show n.repr.length ≤ 4 ↔ _
    rw [Nat.repr_eq_ofList_toDigits, String.length_ofList]
  rw [lineNumber, String.length_append, String.length_ofList, List.length_replicate]
  omega

/-! ## The text found -/

theorem trim_of_not_blank {c : Char} (hc : Text.isBlank c = false) (s : List Char) :
    ∃ piece, Text.trim (c :: s) = c :: piece := by
  have hstart : (c :: s).dropWhile Text.isBlank = c :: s := by
    rw [List.dropWhile_cons, hc]
    rfl
  unfold Text.trim Text.dropTrailing
  rw [hstart, List.reverse_cons, List.dropWhile_append]
  split
  · exact ⟨[], by simp [hc]⟩
  · exact ⟨(s.reverse.dropWhile Text.isBlank).reverse, by simp⟩

theorem foundIn_of_not_blank {c : Char} (hc : Text.isBlank c = false) (s t : List Char) :
    ∃ piece, foundIn (s ++ c :: t) ((s.length + 1 : Nat) : Int) = .text (c :: piece) := by
  have hlength : (s ++ c :: t).length = s.length + (t.length + 1) := by simp
  have hstart : ((s.length + 1 : Nat) - 1 : Int).toNat = s.length := by omega
  obtain ⟨more, hslice⟩ : ∃ more, slice (s ++ c :: t) s.length
      (min ((s ++ c :: t).length : Int) ((s.length + 1 : Nat) + 10)) = c :: more := by
    have hpositive : ¬ min ((s ++ c :: t).length : Int) ((s.length + 1 : Nat) + 10) < 0 := by omega
    have hend : (min ((s ++ c :: t).length : Int) ((s.length + 1 : Nat) + 10)).toNat
        = s.length + (min t.length 10 + 1) := by omega
    refine ⟨t.take (min t.length 10), ?_⟩
    unfold slice
    simp only [if_neg hpositive, hend]
    rw [List.take_length_add_append, List.drop_left, List.take_succ_cons]
  obtain ⟨piece, htrim⟩ := trim_of_not_blank hc more
  refine ⟨piece, ?_⟩
  rw [foundIn, if_pos (by omega), hstart, hslice, htrim]

/-- The text found at a place of the source starts there. -/
theorem foundAt?_of_not_blank {source : List Char} {n : Nat} {c : Char}
    (hn : source[n]? = some c) (hc : Text.isBlank c = false) :
    ∃ piece, foundAt? source (lineAt source n) (columnAt source n) = some (.text (c :: piece)) := by
  obtain ⟨hlt, rfl⟩ := List.getElem?_eq_some_iff.1 hn
  have hline : (lines source)[(source.take n).count '\n']?
      = some (lastLine (source.take n) ++ (source.drop n).takeWhile (· ≠ '\n')) := by
    have h := Text.getElem?_lines (source.take n) (source.drop n)
    rwa [List.take_append_drop] at h
  have hbreak : source[n] ≠ '\n' := by
    intro heq
    rw [heq] at hc
    cases hc
  rw [List.drop_eq_getElem_cons hlt, List.takeWhile_cons_of_pos (by simpa using hbreak)] at hline
  obtain ⟨hcount, _⟩ := List.getElem?_eq_some_iff.1 hline
  have hindex : ((lineAt source n : Nat) - 1 : Int).toNat = (source.take n).count '\n' := by
    unfold lineAt
    omega
  obtain ⟨piece, hpiece⟩ := foundIn_of_not_blank hc (lastLine (source.take n))
    ((source.drop (n + 1)).takeWhile (· ≠ '\n'))
  refine ⟨piece, ?_⟩
  rw [foundAt?, if_neg (by unfold lineAt; omega), lineNumbered?, if_neg (by unfold lineAt; omega),
    hindex, hline, Text.columnAt_eq (Nat.le_of_lt hlt), Option.map_some, hpiece]

end TagScript.Markup
