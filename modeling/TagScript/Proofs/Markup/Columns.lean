import TagScript.Proofs.Markup.Spaced
import TagScript.Text.Lines
import TagScript.Text.Tabs

set_option autoImplicit false

/-! # Lines and columns when tabs are expanded

Expanding tabs keeps line breaks, and starts afresh after each: the last line of an expanded text is
the expansion of the last line (`lastLine_expandTabs`). A place of the expanded text that is not
inside a run of spaces is a place of the text itself (`exists_of_expandTabs`), and different places
stay apart (`length_expandTabs_take_lt`). -/

namespace TagScript.Text

/-! ## The last line -/

/-- What stands after the last line feed of a text. -/
def lastLine (s : List Char) : List Char := (s.reverse.takeWhile (· ≠ '\n')).reverse

/-- A text is one line, or its last line stands after a line feed. -/
theorem lines_cases (s : List Char) :
    '\n' ∉ s ∨ ∃ above line, s = above ++ '\n' :: line ∧ '\n' ∉ line := by
  by_cases h : '\n' ∈ s.reverse
  · obtain ⟨line, above, hs, hline⟩ := List.eq_append_cons_of_mem h
    refine .inr ⟨above.reverse, line.reverse, ?_, by simpa using hline⟩
    simpa using congrArg List.reverse hs
  · exact .inl (by simpa using h)

theorem takeWhile_line {line : List Char} (h : '\n' ∉ line) (rest : List Char) :
    (line ++ rest).takeWhile (· ≠ '\n') = line ++ rest.takeWhile (· ≠ '\n') := by
  refine List.takeWhile_append_of_pos fun c hc => decide_eq_true ?_
  rintro rfl
  exact h hc

theorem lastLine_of_not_mem {s : List Char} (h : '\n' ∉ s) : lastLine s = s := by
  have hreverse : '\n' ∉ s.reverse := by simpa using h
  have hline := takeWhile_line hreverse []
  rw [List.append_nil] at hline
  rw [lastLine, hline, List.takeWhile_nil, List.append_nil, List.reverse_reverse]

theorem lastLine_break (above : List Char) {line : List Char} (h : '\n' ∉ line) :
    lastLine (above ++ '\n' :: line) = line := by
  have hline : '\n' ∉ line.reverse := by simpa using h
  rw [lastLine, List.reverse_append, List.reverse_cons, List.append_assoc, takeWhile_line hline]
  simp

theorem lastLine_subset (s : List Char) : lastLine s ⊆ s := by
  intro c hc
  exact List.mem_reverse.1 ((List.takeWhile_sublist _).subset (List.mem_reverse.1 hc))

theorem columnAt_eq {s : List Char} {n : Nat} (h : n ≤ s.length) :
    columnAt s n = (lastLine (s.take n)).length + 1 := by
  have hlen : (s.take n).reverse.length = n := by
    rw [List.length_reverse, List.length_take, Nat.min_eq_left h]
  have hsplit := congrArg List.length
    (List.takeWhile_append_dropWhile (p := (· ≠ '\n')) (l := (s.take n).reverse))
  rw [List.length_append, hlen] at hsplit
  simp only [columnAt, lineStart, lastLine, List.length_reverse]
  omega

/-! ## The lines of a text -/

theorem lineAt_le_length_lines (s : List Char) (n : Nat) : lineAt s n ≤ (lines s).length := by
  rw [length_lines, lineAt]
  exact Nat.succ_le_succ ((List.take_sublist n s).count_le '\n')

theorem lines_break (above below : List Char) :
    lines (above ++ '\n' :: below) = lines above ++ lines below := by
  induction above with
  | nil => rfl
  | cons c above ih =>
      unfold lines at ih ⊢
      by_cases hc : c = '\n'
      · simp [splitAtChar, hc, ih]
      · cases habove : splitAtChar '\n' above with
        | nil => exact absurd habove (splitAtChar_ne_nil '\n' above)
        | cons piece more => simp [splitAtChar, hc, ih, habove]

theorem head?_lines (s : List Char) : (lines s).head? = some (s.takeWhile (· ≠ '\n')) := by
  induction s with
  | nil => rfl
  | cons c s ih =>
      unfold lines at ih ⊢
      by_cases hc : c = '\n'
      · simp [splitAtChar, hc]
      · cases hs : splitAtChar '\n' s with
        | nil => exact absurd hs (splitAtChar_ne_nil '\n' s)
        | cons piece more =>
            rw [hs] at ih
            simp [splitAtChar, hc, hs, Option.some.inj ih]

/-- The line that holds a place: what stands on it before the place, and what from there on. -/
theorem getElem?_lines (s t : List Char) :
    (lines (s ++ t))[s.count '\n']? = some (lastLine s ++ t.takeWhile (· ≠ '\n')) := by
  have hfirst : ∀ {line : List Char}, '\n' ∉ line →
      (lines (line ++ t))[0]? = some (line ++ t.takeWhile (· ≠ '\n')) := by
    intro line hline
    rw [← List.head?_eq_getElem?, head?_lines, takeWhile_line hline]
  rcases lines_cases s with hs | ⟨above, line, rfl, hline⟩
  · rw [lastLine_of_not_mem hs, List.count_eq_zero_of_not_mem hs]
    exact hfirst hs
  · have hcount : (above ++ '\n' :: line).count '\n' = (lines above).length := by
      rw [length_lines, List.count_append, List.count_cons_self,
        List.count_eq_zero_of_not_mem hline]
    rw [lastLine_break above hline, hcount, List.append_assoc, List.cons_append, lines_break,
      List.getElem?_append_right (Nat.le_refl _), Nat.sub_self]
    exact hfirst hline

/-! ## Expansion piece by piece -/

/-- A character is expanded to itself or, if it is a tab, to spaces. -/
theorem expandTabsFrom_cons (column : Nat) (c : Char) :
    ∃ piece next, (piece = [c] ∨ ∃ more, piece = List.replicate (more + 1) ' ') ∧
      ∀ s, expandTabsFrom column (c :: s) = piece ++ expandTabsFrom next s := by
  by_cases hc : c = '\t'
  · have hlt := Nat.mod_lt column (show 0 < tabStop by decide)
    have hwidth : tabStop - column % tabStop = tabStop - column % tabStop - 1 + 1 := by omega
    refine ⟨List.replicate (tabStop - column % tabStop) ' ', column + (tabStop - column % tabStop),
      .inr ⟨_, congrArg (List.replicate · ' ') hwidth⟩, fun s => ?_⟩
    rw [expandTabsFrom, if_pos hc]
  · refine ⟨[c], if c = '\n' ∨ c = '\r' then 0 else column + 1, .inl rfl, fun s => ?_⟩
    rw [expandTabsFrom, if_neg hc]
    split <;> rfl

/-- All that the expansion of the rest depends on is the column that has been reached. -/
theorem expandTabsFrom_append (column : Nat) (s : List Char) :
    ∃ reached, ∀ t, expandTabsFrom column (s ++ t)
      = expandTabsFrom column s ++ expandTabsFrom reached t := by
  induction s generalizing column with
  | nil => exact ⟨column, fun _ => rfl⟩
  | cons c s ih =>
      obtain ⟨piece, next, _, hc⟩ := expandTabsFrom_cons column c
      obtain ⟨reached, hs⟩ := ih next
      refine ⟨reached, fun t => ?_⟩
      rw [List.cons_append, hc, hc, hs, List.append_assoc]

/-- Columns are counted anew after a line feed. -/
theorem expandTabsFrom_break (column : Nat) (above line : List Char) :
    expandTabsFrom column (above ++ '\n' :: line)
      = expandTabsFrom column above ++ '\n' :: expandTabs line := by
  obtain ⟨reached, h⟩ := expandTabsFrom_append column above
  rw [h]
  simp [expandTabsFrom, expandTabs]

theorem Spaced.count_break {s t : List Char} (h : Spaced s t) : t.count '\n' = s.count '\n' := by
  induction h with
  | nil => rfl
  | char _ _ ih => rw [List.count_cons, List.count_cons, ih]
  | tab more _ ih => simp [List.count_replicate, ih]

theorem Spaced.length_le {s t : List Char} (h : Spaced s t) : s.length ≤ t.length := by
  induction h with
  | nil => exact Nat.le_refl 0
  | char _ _ ih => exact Nat.succ_le_succ ih
  | tab more _ ih =>
      rw [List.length_cons, List.length_append, List.length_replicate]
      omega

theorem lastLine_expandTabs (s : List Char) :
    lastLine (expandTabs s) = expandTabs (lastLine s) := by
  have hkeep : ∀ {line : List Char}, '\n' ∉ line → '\n' ∉ expandTabs line := by
    intro line hline hmem
    rcases (Spaced.expandTabsFrom 0 line).mem hmem with hspace | hmem
    · cases hspace
    · exact hline hmem
  rcases lines_cases s with hs | ⟨above, line, rfl, hline⟩
  · rw [lastLine_of_not_mem hs, lastLine_of_not_mem (hkeep hs)]
  · rw [expandTabs, expandTabsFrom_break, lastLine_break _ (hkeep hline),
      lastLine_break above hline]

/-! ## Places -/

/-- Of two places the later one stays the later one. -/
theorem length_expandTabs_take_lt {s : List Char} {m n : Nat} (hmn : m < n) (hn : n ≤ s.length) :
    (expandTabs (s.take m)).length < (expandTabs (s.take n)).length := by
  have hsplit : s.take n = s.take m ++ (s.drop m).take (n - m) := by
    rw [← List.take_add, Nat.add_sub_cancel' (Nat.le_of_lt hmn)]
  obtain ⟨reached, h⟩ := expandTabsFrom_append 0 (s.take m)
  have hlen := (Spaced.expandTabsFrom reached ((s.drop m).take (n - m))).length_le
  rw [List.length_take, List.length_drop] at hlen
  rw [hsplit, expandTabs, expandTabs, h, List.length_append]
  omega

/-- The expanded text starts with the expansion of what the text starts with. -/
theorem expandTabs_take (s : List Char) (k : Nat) :
    (expandTabs s).take (expandTabs (s.take k)).length = expandTabs (s.take k) := by
  obtain ⟨reached, hsplit⟩ := expandTabsFrom_append 0 (s.take k)
  have hwhole := hsplit (s.drop k)
  rw [List.take_append_drop] at hwhole
  rw [expandTabs, expandTabs, hwhole, List.take_left]

/-- The place between two pieces of a text has a space on either side. -/
def InsideSpaces (before rest : List Char) : Prop :=
  before.getLast? = some ' ' ∧ rest.head? = some ' '

theorem InsideSpaces.append_left {before rest : List Char} (h : InsideSpaces before rest)
    (s : List Char) : InsideSpaces (s ++ before) rest := by
  refine ⟨?_, h.2⟩
  rw [List.getLast?_append, h.1]
  rfl

theorem insideSpaces_replicate {n : Nat} {before rest : List Char} (hbefore : before ≠ [])
    (hrest : rest ≠ []) (h : List.replicate n ' ' = before ++ rest) : InsideSpaces before rest := by
  obtain ⟨hb, hr⟩ : (∀ c ∈ before, c = ' ') ∧ ∀ c ∈ rest, c = ' ' := by
    refine ⟨fun c hc => ?_, fun c hc => ?_⟩ <;>
      exact List.eq_of_mem_replicate (h ▸ List.mem_append.2 (by simp [hc]))
  refine ⟨?_, ?_⟩
  · rw [List.getLast?_eq_some_getLast hbefore, hb _ (List.getLast_mem hbefore)]
  · rw [List.head?_eq_some_head hrest, hr _ (List.head_mem hrest)]

theorem exists_of_expandTabsFrom {column : Nat} {s before rest : List Char}
    (h : expandTabsFrom column s = before ++ rest) (hedge : ¬ InsideSpaces before rest) :
    ∃ u v, s = u ++ v ∧ expandTabsFrom column u = before := by
  induction s generalizing column before with
  | nil =>
      obtain ⟨rfl, _⟩ := List.append_eq_nil_iff.1 h.symm
      exact ⟨[], [], rfl, rfl⟩
  | cons c s ih =>
      obtain ⟨piece, next, hpiece, hc⟩ := expandTabsFrom_cons column c
      rw [hc] at h
      rcases List.append_eq_append_iff.1 h with ⟨a, rfl, hs⟩ | ⟨a, rfl, rfl⟩
      · obtain ⟨u, v, rfl, rfl⟩ := ih hs fun h => hedge (h.append_left piece)
        exact ⟨c :: u, v, rfl, hc u⟩
      · -- the place is at an end of the piece, since a piece of several characters is spaces
        by_cases hbefore : before = []
        · exact ⟨[], c :: s, rfl, hbefore.symm⟩
        by_cases ha : a = []
        · refine ⟨[c], s, rfl, ?_⟩
          rw [hc, ha]
          simp [expandTabsFrom]
        rcases hpiece with hone | ⟨more, hspaces⟩
        · rcases List.append_eq_singleton_iff.1 hone with ⟨hnil, _⟩ | ⟨_, hnil⟩
          · exact absurd hnil hbefore
          · exact absurd hnil ha
        · have hinside := insideSpaces_replicate hbefore ha hspaces.symm
          refine absurd ⟨hinside.1, ?_⟩ hedge
          rw [List.head?_append, hinside.2]
          rfl

/-- A place of the expanded text that is not inside a run of spaces is a place of the text. -/
theorem exists_of_expandTabs {s before rest : List Char} (h : expandTabs s = before ++ rest)
    (hedge : ¬ InsideSpaces before rest) : ∃ u v, s = u ++ v ∧ expandTabs u = before :=
  exists_of_expandTabsFrom h hedge

end TagScript.Text
