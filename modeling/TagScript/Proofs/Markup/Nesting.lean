import Mathlib.Data.Prod.Lex
import TagScript.Proofs.Location.Elements
import TagScript.Proofs.Markup.Columns
import TagScript.Proofs.Markup.Exact

set_option autoImplicit false

/-! # Spans nest

The spans of the elements of a tree nest as the elements do. Places, which are a line and a column,
are in the order of the offsets (`Text.placeAt_lt_iff`), and what a text reaches lies beyond what
its beginnings reach. So the spans in a piece of a text lie between the two ends of the piece
(`Contents.between`), and the spans in one piece are apart from those in the next. -/

namespace TagScript

/-! ## Places in order -/

namespace Text

/-- The place of an offset: its line and its column. Of two places the one on the earlier line is
    less, and on one line the one in the earlier column. -/
def placeAt (s : List Char) (offset : Nat) : ℤ ×ₗ ℤ :=
  toLex ((lineAt s offset : ℤ), (columnAt s offset : ℤ))

/-- The place that a text reaches. -/
def reached (s : List Char) : ℤ ×ₗ ℤ := placeAt s s.length

theorem lineAt_append {s : List Char} {n : Nat} (h : n ≤ s.length) (t : List Char) :
    lineAt (s ++ t) n = lineAt s n := by
  rw [lineAt, lineAt, List.take_append_of_le_length h]

theorem columnAt_append {s : List Char} {n : Nat} (h : n ≤ s.length) (t : List Char) :
    columnAt (s ++ t) n = columnAt s n := by
  rw [columnAt, columnAt, lineStart, lineStart, List.take_append_of_le_length h]

theorem lineAt_reached (s t : List Char) :
    lineAt (s ++ t) (s ++ t).length = lineAt s s.length + t.count '\n' := by
  rw [lineAt, lineAt, List.take_length, List.take_length, List.count_append]
  omega

/-- The last line grows by what is added to it. -/
theorem columnAt_reached (s : List Char) {t : List Char} (ht : '\n' ∉ t) :
    columnAt (s ++ t) (s ++ t).length = columnAt s s.length + t.length := by
  have hreverse : '\n' ∉ t.reverse := by simpa using ht
  have hlast : lastLine (s ++ t) = lastLine s ++ t := by
    rw [lastLine, lastLine, List.reverse_append, takeWhile_line hreverse, List.reverse_append,
      List.reverse_reverse]
  rw [columnAt_eq (Nat.le_refl _), columnAt_eq (Nat.le_refl _), List.take_length, List.take_length,
    hlast, List.length_append]
  omega

/-- What comes after a text is beyond the place that it reaches. -/
theorem reached_lt_append (s : List Char) {t : List Char} (ht : t ≠ []) :
    reached s < reached (s ++ t) := by
  rw [reached, reached, placeAt, placeAt, Prod.Lex.toLex_lt_toLex, lineAt_reached]
  by_cases hbreak : '\n' ∈ t
  · have hcount := List.count_pos_iff.2 hbreak
    left
    simp only
    omega
  · have hlen := List.length_pos_iff.2 ht
    right
    simp only [List.count_eq_zero_of_not_mem hbreak, columnAt_reached s hbreak]
    omega

theorem reached_le_append (s t : List Char) : reached s ≤ reached (s ++ t) := by
  by_cases ht : t = []
  · rw [ht, List.append_nil]
  · exact (reached_lt_append s ht).le

theorem placeAt_eq_reached {s : List Char} {n : Nat} (h : n ≤ s.length) :
    placeAt s n = reached (s.take n) := by
  have hlen : (s.take n).length = n := List.length_take_of_le h
  have hline := lineAt_append (Nat.le_refl (s.take n).length) (s.drop n)
  have hcolumn := columnAt_append (Nat.le_refl (s.take n).length) (s.drop n)
  rw [List.take_append_drop, hlen] at hline hcolumn
  rw [reached, placeAt, placeAt, hlen, hline, hcolumn]

theorem placeAt_lt {s : List Char} {m n : Nat} (hmn : m < n) (hn : n ≤ s.length) :
    placeAt s m < placeAt s n := by
  have hsplit : s.take n = s.take m ++ (s.drop m).take (n - m) := by
    rw [← List.take_add, Nat.add_sub_cancel' (Nat.le_of_lt hmn)]
  have hpiece : (s.drop m).take (n - m) ≠ [] := by
    apply List.ne_nil_of_length_pos
    rw [List.length_take, List.length_drop]
    omega
  have hm : m ≤ s.length := by omega
  rw [placeAt_eq_reached hm, placeAt_eq_reached hn, hsplit]
  exact reached_lt_append _ hpiece

/-- Places are in the order of the offsets. -/
theorem placeAt_lt_iff {s : List Char} {m n : Nat} (hm : m ≤ s.length) (hn : n ≤ s.length) :
    placeAt s m < placeAt s n ↔ m < n := by
  refine ⟨fun h => ?_, fun hmn => placeAt_lt hmn hn⟩
  rcases Nat.lt_trichotomy m n with hmn | rfl | hnm
  · exact hmn
  · exact absurd h (lt_irrefl _)
  · exact absurd h (lt_asymm (placeAt_lt hnm hm))

end Text

/-! ## Spans between places -/

namespace Span

/-- The place of the first character. -/
def first (s : Span) : ℤ ×ₗ ℤ := toLex (s.startLine, s.startColumn)

/-- The place just after the last character. -/
def past (s : Span) : ℤ ×ₗ ℤ := toLex (s.endLine, s.endColumn)

/-- The span is that of a piece of text between two places, and not empty. -/
structure Between (lo hi : ℤ ×ₗ ℤ) (s : Span) : Prop where
  first : lo ≤ s.first
  nonempty : s.first < s.past
  past : s.past ≤ hi

/-- The span lies strictly inside another. -/
structure Inside (outer s : Span) : Prop where
  first : outer.first < s.first
  nonempty : s.first < s.past
  past : s.past < outer.past

/-- The span ends before another starts, or where it starts. -/
def Precedes (s t : Span) : Prop := s.past ≤ t.first

theorem Between.mono {lo hi lo' hi' : ℤ ×ₗ ℤ} {s : Span} (h : s.Between lo hi)
    (hlo : lo' ≤ lo) (hhi : hi ≤ hi') : s.Between lo' hi' :=
  ⟨hlo.trans h.first, h.nonempty, h.past.trans hhi⟩

theorem Inside.ne {outer s : Span} (h : outer.Inside s) : s ≠ outer := by
  rintro rfl
  exact lt_irrefl _ h.first

theorem Between.ne_of_between {lo mid hi : ℤ ×ₗ ℤ} {s t : Span} (hs : s.Between lo mid)
    (ht : t.Between mid hi) : s ≠ t := by
  rintro rfl
  exact lt_irrefl _ ((hs.nonempty.trans_le hs.past).trans_le ht.first)

end Span

namespace Markup

open Text (reached reached_lt_append reached_le_append)

variable {file : String}

/-! ## Spans of elements -/

theorem Element.span_eq {before s : List Char} {n : Node} (h : Element file before s n) :
    n.span = spanAfter file before s := by
  cases h <;> rfl

theorem Element.first_eq {before s : List Char} {n : Node} (h : Element file before s n) :
    n.span.first = reached before := by
  rw [h.span_eq]
  rfl

theorem Element.past_eq {before s : List Char} {n : Node} (h : Element file before s n) :
    n.span.past = reached (before ++ s) := by
  rw [h.span_eq]
  rfl

/-- The text of an element goes from a `<` to a `>`. -/
theorem Element.ends {before s : List Char} {n : Node} (h : Element file before s n) :
    ∃ inner, s = '<' :: inner ++ ['>'] := by
  cases h with
  | @empty _ opening => exact ⟨opening ++ ['/'], by simp⟩
  | @full _ opening _ inner closing gap =>
      exact ⟨opening ++ ['>'] ++ inner ++ ['<', '/'] ++ closing ++ gap, by simp⟩

theorem Element.span_between {before s : List Char} {n : Node} (h : Element file before s n) :
    n.span.Between (reached before) (reached (before ++ s)) := by
  obtain ⟨inner, hs⟩ := h.ends
  have hne : s ≠ [] := by simp [hs]
  refine ⟨h.first_eq.ge, ?_, h.past_eq.le⟩
  rw [h.first_eq, h.past_eq]
  exact reached_lt_append before hne

/-- The content of an element ends before the element does. -/
theorem reached_lt_full (before opening inner closing gap : List Char) :
    reached (before ++ (['<'] ++ opening ++ ['>']) ++ inner)
      < reached (before ++ (['<'] ++ opening ++ ['>'] ++ inner ++ ['<', '/'] ++ closing ++ gap
        ++ ['>'])) := by
  have hmore := reached_lt_append (before ++ (['<'] ++ opening ++ ['>']) ++ inner)
    (t := ['<', '/'] ++ closing ++ gap ++ ['>']) (by simp)
  simpa only [List.append_assoc] using hmore

mutual

/-- All spans in an element lie between the two ends of its text. -/
theorem Element.between : ∀ {before s : List Char} {n : Node}, Element file before s n →
    ∀ m ∈ n.postorder, m.span.Between (reached before) (reached (before ++ s))
  | _, _, _, .empty hopening, m, hm => by
      rw [List.mem_singleton.1 hm]
      exact (Element.empty hopening).span_between
  | before, _, _,
    @Element.full _ _ opening _ inner closing gap _ _ hopening hinner hname hsame hgap,
    m, hm => by
      rcases List.mem_append.1 hm with hm | hm
      · exact (Contents.between hinner m hm).mono (reached_le_append _ _)
          (reached_lt_full before opening inner closing gap).le
      · rw [List.mem_singleton.1 hm]
        exact (Element.full hopening hinner hname hsame hgap).span_between

/-- All spans in a content lie between its two ends. -/
theorem Contents.between : ∀ {before s : List Char} {ns : List Node}, Contents file before s ns →
    ∀ m ∈ Node.postorderAll ns, m.span.Between (reached before) (reached (before ++ s))
  | _, _, _, .nil, _, hm => by cases hm
  | before, _, _, @Contents.comment _ _ s rest _ _ hrest, m, hm => by
      rw [← List.append_assoc]
      exact (Contents.between hrest m hm).mono (reached_le_append before s) (le_refl _)
  | before, _, _, @Contents.element _ _ s rest _ _ hs hrest, m, hm => by
      rw [← List.append_assoc]
      rcases List.mem_append.1 hm with hm | hm
      · exact (Element.between hs m hm).mono (le_refl _) (reached_le_append (before ++ s) rest)
      · exact (Contents.between hrest m hm).mono (reached_le_append before s) (le_refl _)
  | before, _, _, @Contents.text _ _ s rest _ _ _ hrest, m, hm => by
      rw [← List.append_assoc]
      exact (Contents.between hrest m hm).mono (reached_le_append before s) (le_refl _)

end

/-- The spans of all elements inside an element are inside its own. -/
theorem Element.inside {before s : List Char} {n : Node} (h : Element file before s n) :
    ∀ m ∈ Node.postorderAll n.children, n.span.Inside m.span := by
  intro m hm
  have hfirst := h.first_eq
  have hpast := h.past_eq
  cases h with
  | empty => cases hm
  | @full _ opening _ inner closing gap _ _ _ hinner =>
      have hin := hinner.between m hm
      have hopen : reached before < reached (before ++ (['<'] ++ opening ++ ['>'])) :=
        reached_lt_append before (by simp)
      have hclose := reached_lt_full before opening inner closing gap
      exact ⟨hfirst.trans_lt (hopen.trans_le hin.first), hin.nonempty,
        (hin.past.trans_lt hclose).trans_eq hpast.symm⟩

/-- The elements of a content come one after another. -/
theorem Contents.ordered : ∀ {before s : List Char} {ns : List Node}, Contents file before s ns →
    ns.Pairwise fun m n => m.span.Precedes n.span
  | _, _, _, .nil => .nil
  | _, _, _, .comment _ hrest => Contents.ordered hrest
  | _, _, _, .element hs hrest => by
      refine .cons (fun n hn => ?_) (Contents.ordered hrest)
      have hmem := Node.postorder_subset_postorderAll hn n.self_mem_postorder
      exact hs.span_between.past.trans (hrest.between n hmem).first
  | _, _, _, .text _ _ hrest => Contents.ordered hrest

theorem Element.ordered {before s : List Char} {n : Node} (h : Element file before s n) :
    n.children.Pairwise fun c d => c.span.Precedes d.span := by
  cases h with
  | empty => exact .nil
  | full _ hinner => exact hinner.ordered

mutual

/-- No two elements in an element have the same span. -/
theorem Element.spans_nodup : ∀ {before s : List Char} {n : Node}, Element file before s n →
    (n.postorder.map Node.span).Nodup
  | _, _, _, .empty _ => List.pairwise_singleton _ _
  | _, _, _, .full hopening hinner hname hsame hgap => by
      have hself := (Element.full hopening hinner hname hsame hgap).inside
      rw [Node.postorder, List.map_append, List.nodup_append]
      refine ⟨Contents.spans_nodup hinner, List.pairwise_singleton _ _, ?_⟩
      rintro _ hspan _ hlast
      obtain ⟨m, hm, rfl⟩ := List.mem_map.1 hspan
      rw [List.mem_singleton.1 hlast]
      exact (hself m hm).ne

/-- No two elements in a content have the same span. -/
theorem Contents.spans_nodup : ∀ {before s : List Char} {ns : List Node},
    Contents file before s ns → ((Node.postorderAll ns).map Node.span).Nodup
  | _, _, _, .nil => List.nodup_nil
  | _, _, _, .comment _ hrest => Contents.spans_nodup hrest
  | _, _, _, .element hs hrest => by
      rw [Node.postorderAll, List.map_append, List.nodup_append]
      refine ⟨Element.spans_nodup hs, Contents.spans_nodup hrest, ?_⟩
      rintro _ hspan _ hother
      obtain ⟨m, hm, rfl⟩ := List.mem_map.1 hspan
      obtain ⟨n, hn, rfl⟩ := List.mem_map.1 hother
      exact (hs.between m hm).ne_of_between (hrest.between n hn)
  | _, _, _, .text _ _ hrest => Contents.spans_nodup hrest

end

/-! ## Elements of a tree -/

theorem Derives.spans_nodup {mode : Mode} {text : List Char} {root : Node}
    (h : Derives mode file text root) : (root.postorder.map Node.span).Nodup := by
  obtain ⟨_, hs, _⟩ := h
  exact hs.spans_nodup

/-- The element takes the piece of the text from the offset `first`, that of its `<`, up to the
    offset `past`, just after its closing `>`; and its span is that of the piece. -/
structure Node.Takes (file : String) (text : List Char) (first past : Nat) (n : Node) : Prop where
  element : Element file (text.take first) ((text.take past).drop first) n
  nonempty : first < past
  inText : past ≤ text.length
  opens : text[first]? = some '<'
  closes : text[past - 1]? = some '>'
  isFile : n.span.file = file
  isFirst : n.span.first = Text.placeAt text first
  isPast : n.span.past = Text.placeAt text past

theorem Stands.takes {text : List Char} {n : Node} (h : Stands file text n) :
    ∃ first past, n.Takes file text first past := by
  obtain ⟨before, s, after, rfl, hs⟩ := h
  obtain ⟨inner, hends⟩ := hs.ends
  have hlen : s.length = inner.length + 2 := by simp [hends]
  have htake : (before ++ s ++ after).take (before ++ s).length = before ++ s := List.take_left
  have hfirst : (before ++ s ++ after).take before.length = before := by
    rw [List.append_assoc, List.take_left]
  have hinText : (before ++ s).length ≤ (before ++ s ++ after).length := by simp
  refine ⟨before.length, (before ++ s).length, ?_, ?_, hinText, ?_, ?_, ?_, ?_, ?_⟩
  · rw [htake, List.drop_left, hfirst]
    exact hs
  · rw [List.length_append]
    omega
  · simp [hends]
  · have hlast : (before ++ s).length - 1 = (before ++ '<' :: inner).length := by
      simp only [List.length_append, List.length_cons]
      omega
    rw [hlast, hends]
    simp
  · rw [hs.span_eq]
    rfl
  · have hle : before.length ≤ (before ++ s ++ after).length := by simp
    rw [hs.first_eq, Text.placeAt_eq_reached hle, hfirst]
  · rw [hs.past_eq, Text.placeAt_eq_reached hinText, htake]

/-- Of a source that can be read, every element takes a piece of the prepared text, from its `<` to
    its closing `>`, and its span gives line and column of the two ends. The spans of its children
    are strictly inside its own and come one after another. Places are in the order of the offsets,
    and no two elements have the same span. -/
theorem spans_nest {mode : Mode} {text : String} {root : Node}
    (h : parse mode file text = .ok root) :
    (∀ n ∈ root.postorder,
      (∃ first past, n.Takes file (mode.prepare text.toList) first past) ∧
      (∀ c ∈ n.children, n.span.Inside c.span) ∧
      n.children.Pairwise fun c d => c.span.Precedes d.span) ∧
    (∀ i j, i ≤ (mode.prepare text.toList).length → j ≤ (mode.prepare text.toList).length →
      (Text.placeAt (mode.prepare text.toList) i < Text.placeAt (mode.prepare text.toList) j
        ↔ i < j)) ∧
    (root.postorder.map Node.span).Nodup := by
  have hderives := parse_eq_ok.1 h
  refine ⟨fun n hn => ?_, fun i j hi hj => Text.placeAt_lt_iff hi hj, hderives.spans_nodup⟩
  have hstands := hderives.stands n hn
  refine ⟨hstands.takes, ?_⟩
  obtain ⟨_, _, _, _, hs⟩ := hstands
  refine ⟨fun c hc => hs.inside c ?_, hs.ordered⟩
  exact Node.postorder_subset_postorderAll hc c.self_mem_postorder

/-- Two children on one line, the first line of the element being another. -/
theorem spans_nest_siblings :
    ∃ root b c, parse .document "f" "<a>\n <b/>,<c/></a>" = .ok root ∧ root.children = [b, c] ∧
      root.span.Inside b.span ∧ root.span.Inside c.span ∧ b.span.Precedes c.span := by
  obtain ⟨root, b, c, hread, hchildren⟩ : ∃ root b c,
      parse .document "f" "<a>\n <b/>,<c/></a>" = .ok root ∧ root.children = [b, c] :=
    ⟨_, _, _, rfl, rfl⟩
  obtain ⟨-, hinside, hordered⟩ := (spans_nest hread).1 root root.self_mem_postorder
  rw [hchildren] at hinside hordered
  exact ⟨root, b, c, hread, hchildren, hinside b (by simp), hinside c (by simp),
    List.rel_of_pairwise_cons hordered (by simp)⟩

end Markup

end TagScript
