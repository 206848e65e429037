import TagScript.Proofs.Markup.Context
import TagScript.Proofs.Markup.Stops

set_option autoImplicit false

/-! # The place that a parse error names

Reading stops in the prepared text, and a parse error speaks of the source. Every stop has one place
in the source (`exists_readsTo`, `Mode.ReadsTo.unique`): blanks in front that were not read come
before it, and tabs before it were expanded. Line and column are counted in the prepared text, so
they are those of the place only if nothing before it changed them, and the caret stands below it
only if its line number has four digits at most (`parse_error_place`). -/

namespace TagScript.Markup

open Text (expandTabs lastLine lineAt columnAt)

/-! ## Places of the source -/

/-- The blanks at the start of a source that are not read. -/
def Mode.lead : Mode → List Char → List Char
  | .document, _ => []
  | .fragment, s => s.takeWhile Text.isBlank

/-- The part of a source that is read. -/
def Mode.kept : Mode → List Char → List Char
  | .document, s => s
  | .fragment, s => Text.trim s

/-- What is read of a source before an offset. -/
def Mode.readBefore (mode : Mode) (source : List Char) (n : Nat) : List Char :=
  (mode.kept source).take (n - (mode.lead source).length)

/-- The offset `n` of the source is the offset `location` of the prepared text: what is read before
    it has that length once its tabs are expanded. -/
structure Mode.ReadsTo (mode : Mode) (source : List Char) (n : Nat) (location : Int) : Prop where
  afterLead : (mode.lead source).length ≤ n
  inKept : n ≤ (mode.lead source).length + (mode.kept source).length
  sameLength : ((expandTabs (mode.readBefore source n)).length : Int) = location

theorem Mode.prepare_eq (mode : Mode) (source : List Char) :
    mode.prepare source = expandTabs (mode.kept source) := by
  cases mode <;> rfl

theorem Mode.lead_append_kept (mode : Mode) (source : List Char) :
    ∃ trail, source = mode.lead source ++ mode.kept source ++ trail := by
  cases mode with
  | document => exact ⟨[], by simp [Mode.lead, Mode.kept]⟩
  | fragment =>
      let rest := source.dropWhile Text.isBlank
      refine ⟨(rest.reverse.takeWhile Text.isBlank).reverse, ?_⟩
      have hrest : Text.trim source ++ (rest.reverse.takeWhile Text.isBlank).reverse = rest := by
        rw [Text.trim, Text.dropTrailing, ← List.reverse_append, List.takeWhile_append_dropWhile,
          List.reverse_reverse]
      simp only [Mode.lead, Mode.kept, List.append_assoc, hrest]
      exact List.takeWhile_append_dropWhile.symm

namespace Mode.ReadsTo

variable {mode : Mode} {source : List Char} {n : Nat} {location : Int}

theorem take_eq (h : mode.ReadsTo source n location) :
    source.take n = mode.lead source ++ mode.readBefore source n := by
  obtain ⟨trail, hsource⟩ := mode.lead_append_kept source
  have hn := h.inKept
  have hlead := h.afterLead
  conv => lhs; rw [hsource]
  rw [Mode.readBefore, List.append_assoc, List.take_append, List.take_of_length_le hlead,
    List.take_append_of_le_length (by omega)]

theorem le_length (h : mode.ReadsTo source n location) : n ≤ source.length := by
  obtain ⟨trail, hsource⟩ := mode.lead_append_kept source
  have hn := h.inKept
  have hlength := congrArg List.length hsource
  rw [List.length_append, List.length_append] at hlength
  omega

/-- What is read before the place is where the prepared text is cut. -/
theorem prepare_take {offset : Nat} (h : mode.ReadsTo source n offset) :
    (mode.prepare source).take offset = expandTabs (mode.readBefore source n) := by
  have hlength : (expandTabs (mode.readBefore source n)).length = offset := by
    exact_mod_cast h.sameLength
  rw [mode.prepare_eq, ← hlength]
  exact Text.expandTabs_take (mode.kept source) (n - (mode.lead source).length)

theorem offset_le {offset : Nat} (h : mode.ReadsTo source n offset) :
    offset ≤ (mode.prepare source).length := by
  have hlength := congrArg List.length h.prepare_take
  have hoffset := h.sameLength
  rw [List.length_take] at hlength
  omega

/-- A place of the prepared text is that of one place of the source at most. -/
theorem unique {m : Nat} (hm : mode.ReadsTo source m location)
    (hn : mode.ReadsTo source n location) : m = n := by
  have hlt : ∀ {m n : Nat}, mode.ReadsTo source m location → mode.ReadsTo source n location →
      ¬ m < n := by
    intro m n hm hn hmn
    have hbound := hn.inKept
    have hlead := hm.afterLead
    have hless := Text.length_expandTabs_take_lt (s := mode.kept source)
      (m := m - (mode.lead source).length) (n := n - (mode.lead source).length)
      (by omega) (by omega)
    have hsame := hm.sameLength.trans hn.sameLength.symm
    unfold Mode.readBefore at hsame
    omega
  have hmn := hlt hm hn
  have hnm := hlt hn hm
  omega

end Mode.ReadsTo

/-- A stop has a place in the source. -/
theorem exists_readsTo {mode : Mode} {file : String} {source : List Char} {stop : Stop}
    (h : readPrepared mode file (mode.prepare source) = .error stop) :
    ∃ n, mode.ReadsTo source n stop.offset := by
  obtain ⟨before, rest, hprepared, hoffset, hedge⟩ := readPrepared_stop h
  rw [mode.prepare_eq] at hprepared
  obtain ⟨s, t, hkept, rfl⟩ := Text.exists_of_expandTabs hprepared hedge
  have hread : mode.readBefore source ((mode.lead source).length + s.length) = s := by
    rw [Mode.readBefore, hkept, Nat.add_sub_cancel_left, List.take_left]
  refine ⟨(mode.lead source).length + s.length, Nat.le_add_right .., ?_, ?_⟩
  · rw [hkept, List.length_append]
    omega
  · rw [hread, hoffset]

/-! ## Line and column of a report -/

section Report

variable {mode : Mode} {file text : String} {stop : Stop} {n : Nat}

theorem report_place : (stop.report mode file text).line
      = (lineAt (mode.prepare text.toList) stop.offset : Nat) ∧
    (stop.report mode file text).column
      = (columnAt (mode.prepare text.toList) stop.offset : Nat) := by
  have hstart := Cursor.lineStart_le (mode.prepare text.toList) stop.offset
  refine ⟨rfl, ?_⟩
  show (stop.offset : Int) - (Text.lineStart (mode.prepare text.toList) stop.offset : Nat) + 1 = _
  rw [columnAt]
  omega

theorem report_line (h : mode.ReadsTo text.toList n stop.offset) :
    (stop.report mode file text).line
      = ((mode.readBefore text.toList n).count '\n' + 1 : Nat) := by
  rw [report_place.1, lineAt, h.prepare_take, expandTabs,
    (Text.Spaced.expandTabsFrom 0 _).count_break]

theorem report_column (h : mode.ReadsTo text.toList n stop.offset) :
    (stop.report mode file text).column
      = ((expandTabs (lastLine (mode.readBefore text.toList n))).length + 1 : Nat) := by
  rw [report_place.2, Text.columnAt_eq h.offset_le, h.prepare_take, Text.lastLine_expandTabs]

end Report

/-! ## What a report says of a place -/

/-- The parse error speaks of the offset `n` of the source: line and column are its own, the context
    shows its line with the caret below it, and a text found starts with the character there unless
    that is blank. -/
structure ParseError.Designates (e : ParseError) (source : List Char) (n : Nat) : Prop where
  line : e.line = lineAt source n
  column : e.column = columnAt source n
  context : e.context = some (markedContext source (lineAt source n)
    ((lineNumber (lineAt source n)).length + 2 + (columnAt source n - 1)))
  found : ∀ c, source[n]? = some c → Text.isBlank c = false →
    ∃ piece, e.found = some ("'" ++ String.ofList (c :: piece) ++ "'")

/-- Nothing before the offset `n` of the source shifts lines and columns: no line feed is left out,
    what is read of the line before the place is as long as what stands there, and the line number
    has four digits at most. -/
structure Mode.Aligned (mode : Mode) (source : List Char) (n : Nat) : Prop where
  noLineFeed : '\n' ∉ mode.lead source
  sameColumn : (expandTabs (lastLine (mode.readBefore source n))).length
    = (lastLine (source.take n)).length
  fourDigits : lineAt source n < 10000

/-- Context and text found fit the line and column, so that these decide; what the context adds is
    the room for line numbers. -/
theorem ParseError.designates_iff {e : ParseError} {source : List Char} {n : Nat}
    (hcontext : e.context = some (contextOf source e.line e.column))
    (hfound : e.found = some (((foundAt? source e.line e.column).getD .endOfInput).format)) :
    e.Designates source n
      ↔ e.line = lineAt source n ∧ e.column = columnAt source n ∧ lineAt source n < 10000 := by
  have hmarked : e.line = lineAt source n → e.column = columnAt source n →
      e.context = some (markedContext source (lineAt source n) (6 + (columnAt source n - 1))) := by
    intro hline hcolumn
    rw [hcontext, hline, hcolumn,
      contextOf_eq (Text.one_le_lineAt source n) (Text.lineAt_le_length_lines source n)]
  constructor
  · rintro ⟨hline, hcolumn, hshown, _⟩
    refine ⟨hline, hcolumn, length_lineNumber.1 ?_⟩
    have hindent := markedContext_inj (Option.some.inj
      ((hmarked hline hcolumn).symm.trans hshown))
    omega
  · rintro ⟨hline, hcolumn, hdigits⟩
    refine ⟨hline, hcolumn, ?_, fun c hc hblank => ?_⟩
    · rw [length_lineNumber.2 hdigits]
      exact hmarked hline hcolumn
    · obtain ⟨piece, hpiece⟩ := foundAt?_of_not_blank hc hblank
      refine ⟨piece, ?_⟩
      rw [hfound, hline, hcolumn, hpiece]
      rfl

theorem report_designates_iff {mode : Mode} {file text : String} {stop : Stop} {n : Nat}
    (h : mode.ReadsTo text.toList n stop.offset) :
    (stop.report mode file text).Designates text.toList n ↔ mode.Aligned text.toList n := by
  have hline : (stop.report mode file text).line = lineAt text.toList n
      ↔ '\n' ∉ mode.lead text.toList := by
    rw [report_line h, lineAt, h.take_eq, List.count_append, ← List.count_eq_zero]
    omega
  have hcolumn : (stop.report mode file text).column = columnAt text.toList n
      ↔ (expandTabs (lastLine (mode.readBefore text.toList n))).length
        = (lastLine (text.toList.take n)).length := by
    rw [report_column h, Text.columnAt_eq h.le_length]
    omega
  rw [ParseError.designates_iff rfl rfl, hline, hcolumn]
  constructor
  · rintro ⟨hlead, hwidth, hdigits⟩
    exact ⟨hlead, hwidth, hdigits⟩
  · rintro ⟨hlead, hwidth, hdigits⟩
    exact ⟨hlead, hwidth, hdigits⟩

/-- A parse error is about one place of the source, and it designates that place if and only if
    nothing before the place shifts the lines and columns. -/
theorem parse_error_place {mode : Mode} {file text : String} {e : ParseError}
    (h : parse mode file text = .error (.refused e)) :
    (∃ n, mode.ReadsTo text.toList n e.location ∧
      ∀ m, mode.ReadsTo text.toList m e.location → m = n) ∧
    ∀ n, mode.ReadsTo text.toList n e.location →
      (e.Designates text.toList n ↔ mode.Aligned text.toList n) := by
  obtain ⟨stop, hread, -, rfl⟩ := parse_eq_refused.1 h
  obtain ⟨n, hn⟩ := exists_readsTo hread
  exact ⟨⟨n, hn, fun m hm => hm.unique hn⟩, fun m hm => report_designates_iff hm⟩

/-- An element that is closed by another tag: the error designates the start of the element. -/
theorem parse_error_place_mismatched :
    ∃ e, parse .document "f" "<program>\n<main>\n<value variable='x'>\n</main>\n</program>"
        = .error (.refused e) ∧
      e.Designates "<program>\n<main>\n<value variable='x'>\n</main>\n</program>".toList 17 := by
  have hread : read .document "f" "<program>\n<main>\n<value variable='x'>\n</main>\n</program>"
      = .error ⟨17, .mismatchedTags "value" "main", []⟩ := by rfl
  have herror := parse_eq_refused.2 ⟨_, hread, nofun, rfl⟩
  exact ⟨_, herror, ((parse_error_place herror).2 17 ⟨by decide, by decide, rfl⟩).2
    ⟨by decide, by decide, by decide⟩⟩

/-- Blanks before a fragment are not counted: the reading fails on line 2 and the error names
    line 1. A tab is counted as up to eight columns: the reading fails at column 4 and the error
    names column 11. -/
theorem parse_error_misplaced :
    (∃ e, parse .fragment "f" "\n<a" = .error (.refused e) ∧
      Mode.ReadsTo .fragment "\n<a".toList 3 e.location ∧
      e.line = 1 ∧ lineAt "\n<a".toList 3 = 2 ∧ ¬ e.Designates "\n<a".toList 3) ∧
    ∃ e, parse .document "f" "\t<a" = .error (.refused e) ∧
      Mode.ReadsTo .document "\t<a".toList 3 e.location ∧
      e.column = 11 ∧ columnAt "\t<a".toList 3 = 4 ∧ ¬ e.Designates "\t<a".toList 3 := by
  have hbreak : read .fragment "f" "\n<a" = .error ⟨2, .expected .tagEnd, []⟩ := by rfl
  have htab : read .document "f" "\t<a" = .error ⟨10, .expected .tagEnd, []⟩ := by rfl
  refine ⟨⟨_, parse_eq_refused.2 ⟨_, hbreak, nofun, rfl⟩, ⟨by decide, by decide, rfl⟩,
      report_place.1, by decide, fun h => ?_⟩,
    ⟨_, parse_eq_refused.2 ⟨_, htab, nofun, rfl⟩, ⟨by decide, by decide, rfl⟩, report_place.2,
      by decide, fun h => ?_⟩⟩
  · exact absurd (report_place.1.symm.trans h.line) (by decide)
  · exact absurd (report_place.2.symm.trans h.column) (by decide)

/-- If nothing in front is left out, the text holds no tab and it has fewer than 10000 lines, every
    parse error designates its place. -/
theorem parse_error_designates {mode : Mode} {file text : String} {e : ParseError} {n : Nat}
    (h : parse mode file text = .error (.refused e)) (hn : mode.ReadsTo text.toList n e.location)
    (hlead : mode.lead text.toList = []) (htab : '\t' ∉ text.toList)
    (hlines : (Text.lines text.toList).length < 10000) : e.Designates text.toList n := by
  obtain ⟨stop, _, -, rfl⟩ := parse_eq_refused.1 h
  have hbefore : mode.readBefore text.toList n = text.toList.take n := by
    rw [hn.take_eq, hlead, List.nil_append]
  have hline : '\t' ∉ lastLine (text.toList.take n) := fun hmem =>
    htab (List.mem_of_mem_take (Text.lastLine_subset _ hmem))
  refine (report_designates_iff hn).2 ⟨by simp [hlead], ?_, ?_⟩
  · rw [hbefore, expandTabs, Text.expandTabsFrom_of_not_mem 0 _ hline]
  · exact Nat.lt_of_le_of_lt (Text.lineAt_le_length_lines _ n) hlines

end TagScript.Markup
