import TagScript.Proofs.Markup.Columns

set_option autoImplicit false

/-! # Places on lines

A place of a text stands on one of its lines, after the lines above it with a line feed each
(`OnLine`). Line and column of an offset are those of its place (`onLine_of_le`).
Expanding tabs moves places along their lines, but to no other line (`lineAt_expandTabs`). -/

namespace TagScript.Text

/-- The lines of a text, each with a line feed after it, are the text and a last line feed. -/
theorem flatMap_lines (s : List Char) : (lines s).flatMap (· ++ ['\n']) = s ++ ['\n'] := by
  induction s with
  | nil => rfl
  | cons c s ih =>
      unfold lines at ih ⊢
      by_cases hc : c = '\n'
      · simp [splitAtChar, hc, ih]
      · cases hs : splitAtChar '\n' s with
        | nil => exact absurd hs (splitAtChar_ne_nil '\n' s)
        | cons piece more =>
            -- `c` stands in front of the first line of the rest
            rw [hs, List.flatMap_cons] at ih
            simp only [splitAtChar, if_neg hc, hs, List.flatMap_cons, List.cons_append, ih]

/-- The offset `n` is the place in column `column` of line number `line`, which reads `content`.
    Lines and columns are counted from one. -/
structure OnLine (s : List Char) (n line column : Nat) (content : List Char) : Prop where
  line_pos : 1 ≤ line
  isLine : (lines s)[line - 1]? = some content
  offset : n + 1 = (((lines s).take (line - 1)).flatMap (· ++ ['\n'])).length + column
  column_pos : 1 ≤ column
  column_le : column ≤ content.length + 1

/-- The line that holds an offset. -/
def lineOf (s : List Char) (n : Nat) : List Char :=
  lastLine (s.take n) ++ (s.drop n).takeWhile (· ≠ '\n')

theorem lineOf_spec (s : List Char) (n : Nat) : (lines s)[lineAt s n - 1]? = some (lineOf s n) := by
  have hline := getElem?_lines (s.take n) (s.drop n)
  rw [List.take_append_drop] at hline
  exact hline

/-- Line and column of an offset say where its place is. -/
theorem onLine_of_le {s : List Char} {n : Nat} (h : n ≤ s.length) :
    OnLine s n (lineAt s n) (columnAt s n) (lineOf s n) := by
  refine ⟨one_le_lineAt s n, lineOf_spec s n, ?_, one_le_columnAt s n, ?_⟩
  · have hlength : (s.take n).length = n := List.length_take_of_le h
    rw [columnAt_eq h, lineAt, Nat.add_sub_cancel]
    rcases lines_cases (s.take n) with hline | ⟨above, line, hsplit, hline⟩
    · rw [List.count_eq_zero_of_not_mem hline, lastLine_of_not_mem hline, hlength]
      simp
    · have hcount : (s.take n).count '\n' = (lines above).length := by
        rw [hsplit, length_lines, List.count_append, List.count_cons_self,
          List.count_eq_zero_of_not_mem hline]
      have hlines : lines s = lines above ++ lines (line ++ s.drop n) := by
        calc lines s = lines (s.take n ++ s.drop n) := by rw [List.take_append_drop]
          _ = lines (above ++ '\n' :: (line ++ s.drop n)) := by
              rw [hsplit, List.append_assoc, List.cons_append]
          _ = _ := lines_break ..
      rw [hcount, hlines, List.take_left, flatMap_lines, hsplit, lastLine_break above hline,
        List.length_append, List.length_singleton]
      rw [hsplit, List.length_append, List.length_cons] at hlength
      omega
  · rw [columnAt_eq h, lineOf, List.length_append]
    omega

/-- The character at an offset stands on the line that holds the offset. -/
theorem getElem?_lineOf {s : List Char} {n : Nat} {c : Char} (hn : s[n]? = some c) (hc : c ≠ '\n') :
    (lineOf s n)[columnAt s n - 1]? = some c := by
  obtain ⟨hlt, rfl⟩ := List.getElem?_eq_some_iff.1 hn
  rw [columnAt_eq (Nat.le_of_lt hlt), Nat.add_sub_cancel, lineOf, List.getElem?_append_right
    (Nat.le_refl _), Nat.sub_self, List.drop_eq_getElem_cons hlt,
    List.takeWhile_cons_of_pos (by simpa using hc)]
  rfl

/-! ## Places when tabs are expanded -/

/-- Expanding tabs leaves a place on its line. -/
theorem lineAt_expandTabs (s : List Char) (k : Nat) :
    lineAt (expandTabs s) (expandTabs (s.take k)).length = lineAt s k := by
  rw [lineAt, lineAt, expandTabs_take, expandTabs, (Spaced.expandTabsFrom 0 _).count_break]

/-- A character of the expanded text that is no space is one of the text itself. -/
theorem exists_of_getElem?_expandTabs {s : List Char} {i : Nat} {c : Char}
    (h : (expandTabs s)[i]? = some c) (hc : c ≠ ' ') :
    ∃ k, s[k]? = some c ∧ (expandTabs (s.take k)).length = i := by
  obtain ⟨hlt, hget⟩ := List.getElem?_eq_some_iff.1 h
  have hsplit : expandTabs s = (expandTabs s).take i ++ c :: (expandTabs s).drop (i + 1) := by
    rw [← hget, List.getElem_cons_drop, List.take_append_drop]
  have hedge : ¬ InsideSpaces ((expandTabs s).take i) (c :: (expandTabs s).drop (i + 1)) :=
    fun hinside => hc (Option.some.inj hinside.2)
  obtain ⟨u, v, hs, hu⟩ := exists_of_expandTabs hsplit hedge
  obtain ⟨reached, happend⟩ := expandTabsFrom_append 0 u
  have hrest : expandTabsFrom reached v = c :: (expandTabs s).drop (i + 1) := by
    have hwhole := (happend v).symm
    rw [← hs] at hwhole
    have hsame := hwhole.trans hsplit
    rw [← hu] at hsame
    exact List.append_cancel_left hsame
  cases v with
  | nil => cases hrest
  | cons d v =>
      obtain ⟨piece, next, hpiece, hcons⟩ := expandTabsFrom_cons reached d
      rw [hcons] at hrest
      -- a tab would have become spaces, and `c` is none
      have hd : d = c := by
        rcases hpiece with rfl | ⟨more, rfl⟩
        · exact (List.cons.inj hrest).1
        · exact absurd (List.cons.inj hrest).1.symm hc
      refine ⟨u.length, ?_, ?_⟩
      · rw [hs, hd]
        simp
      · rw [hs, List.take_left, hu, List.length_take]
        omega

end TagScript.Text
