import Mathlib.Data.List.Intervals
import TagScript.Proofs.Markup.Coordinates
import TagScript.Proofs.Text.Place

set_option autoImplicit false

/-! # The excerpt in a parse error

A parse error shows an excerpt of the source: the line it is about, up to two lines on either side
in their order, and one caret line right below the line it is about. The number of that line is
counted in the prepared text, whose lines are those of a piece of the source, so it is always the
number of a line of the source (`report_line_le`). -/

namespace TagScript

/-! ## Lines put together -/

namespace Text

/-- Lines without line feeds, put together with line feeds between them, are the lines of the
    text. -/
theorem lines_intercalate {texts : List (List Char)} (hne : texts ≠ [])
    (h : ∀ line ∈ texts, '\n' ∉ line) : lines (['\n'].intercalate texts) = texts := by
  have hsingle : ∀ {line : List Char}, '\n' ∉ line → lines line = [line] := by
    intro line hline
    obtain ⟨only, honly⟩ : ∃ only, lines line = [only] := by
      rw [← List.length_eq_one_iff, length_lines, List.count_eq_zero_of_not_mem hline]
    have hhead := head?_lines line
    have hall := takeWhile_line hline []
    simp only [List.append_nil, List.takeWhile_nil] at hall
    rw [honly, hall] at hhead
    rw [honly, Option.some.inj hhead]
  induction texts with
  | nil => exact absurd rfl hne
  | cons line rest ih =>
      have hline := h line List.mem_cons_self
      cases rest with
      | nil => simpa using hsingle hline
      | cons next rest =>
          have hrest := ih (List.cons_ne_nil next rest) fun l hl => h l (List.mem_cons_of_mem _ hl)
          have hjoin : ['\n'].intercalate (line :: next :: rest)
              = line ++ '\n' :: ['\n'].intercalate (next :: rest) := by
            simp [List.intercalate]
          rw [hjoin, lines_break, hsingle hline, hrest]
          rfl

end Text

namespace Markup

open Text (lines lineAt columnAt OnLine)

/-! ## Numbered lines and the caret line -/

/-- The lines of a source with the given numbers, as an excerpt shows them. -/
def shownLines (source : List Char) (numbers : List Nat) : List String :=
  numbers.map fun number =>
    lineNumber number ++ ": " ++ String.ofList ((lines source).getD (number - 1) [])

/-- A run of lines of the source is shown under its numbers. -/
theorem numbered_eq_shownLines {source : List Char} {first count : Nat}
    (h : first + count ≤ (lines source).length) :
    numbered (first + 1) (((lines source).drop first).take count)
      = shownLines source (List.Ico (first + 1) (first + 1 + count)) := by
  have hlength : (((lines source).drop first).take count).length = count := by
    rw [List.length_take, List.length_drop]
    omega
  apply List.ext_getElem
  · simp only [numbered, shownLines, List.length_map, List.length_zipIdx, hlength, List.Ico.length]
    omega
  · intro i hi _
    have hlt : i < count := by simpa [numbered, hlength] using hi
    have hget : first + i < (lines source).length := by omega
    have hnumber : first + 1 + i - 1 = first + i := by omega
    simp only [numbered, shownLines, List.getElem_map, List.getElem_zipIdx, List.getElem_take,
      List.getElem_drop, List.Ico, List.getElem_range', Nat.one_mul, hnumber,
      List.getD_eq_getElem?_getD, List.getElem?_eq_getElem hget, Option.getD_some]

/-- The excerpt line by line. -/
theorem markedContext_eq {source : List Char} {line indent : Nat} (hline : 1 ≤ line)
    (hlast : line ≤ (lines source).length) :
    markedContext source line indent = "\n".intercalate
      (shownLines source (List.Ico (max 1 (line - 2)) (line + 1)) ++ caretLine indent ::
        shownLines source (List.Ico (line + 1) (min (lines source).length (line + 2) + 1))) := by
  have habove : numbered (line - 3 + 1) (((lines source).take line).drop (line - 3))
      = shownLines source (List.Ico (max 1 (line - 2)) (line + 1)) := by
    have hfirst : line - 3 + 1 = max 1 (line - 2) := by omega
    have hend : line - 3 + 1 + (line - (line - 3)) = line + 1 := by omega
    rw [List.drop_take, numbered_eq_shownLines (by omega), hend, hfirst]
  have hbelow : numbered (line + 1) (((lines source).drop line).take 2)
      = shownLines source (List.Ico (line + 1) (min (lines source).length (line + 2) + 1)) := by
    have htake : ((lines source).drop line).take 2
        = ((lines source).drop line).take (min 2 ((lines source).length - line)) := by
      rw [List.take_eq_take_min, List.length_drop]
    have hend : line + 1 + min 2 ((lines source).length - line)
        = min (lines source).length (line + 2) + 1 := by omega
    rw [htake, numbered_eq_shownLines (by omega), hend]
  rw [markedContext, habove, hbelow]

theorem lineFeed_not_mem_lineNumber (n : Nat) : '\n' ∉ (lineNumber n).toList := by
  have hdigits : '\n' ∉ (toString n).toList := by
    intro hmem
    have hrepr : (toString n).toList = Nat.toDigits 10 n := by
      show n.repr.toList = _
      rw [Nat.repr_eq_ofList_toDigits, String.toList_ofList]
    rw [hrepr] at hmem
    exact absurd (Nat.isDigit_of_mem_toDigits (by decide) (by decide) hmem) (by decide)
  intro hmem
  rw [lineNumber, String.toList_append, String.toList_ofList] at hmem
  rcases List.mem_append.1 hmem with hspace | hdigit
  · exact absurd (List.eq_of_mem_replicate hspace) (by decide)
  · exact hdigits hdigit

theorem lineFeed_not_mem_shownLines {source : List Char} {numbers : List Nat} {shown : String}
    (h : shown ∈ shownLines source numbers) : '\n' ∉ shown.toList := by
  obtain ⟨number, _, rfl⟩ := List.mem_map.1 h
  have hcontent : '\n' ∉ (lines source).getD (number - 1) [] := by
    rw [List.getD_eq_getElem?_getD]
    cases hget : (lines source)[number - 1]? with
    | none => simp
    | some content =>
        exact Text.not_mem_of_mem_splitAtChar '\n' source content (List.mem_of_getElem? hget)
  simp only [String.toList_append, String.toList_ofList, List.mem_append, not_or]
  exact ⟨⟨lineFeed_not_mem_lineNumber number, by decide⟩, hcontent⟩

theorem caretLine_toList (indent : Nat) :
    (caretLine indent).toList = List.replicate indent ' ' ++ "^ Error here".toList := by
  rw [caretLine, String.toList_append, String.toList_ofList]

theorem lineFeed_not_mem_caretLine (indent : Nat) : '\n' ∉ (caretLine indent).toList := by
  rw [caretLine_toList]
  intro hmem
  rcases List.mem_append.1 hmem with hspace | hmark
  · exact absurd (List.eq_of_mem_replicate hspace) (by decide)
  · exact absurd hmark (by decide)

/-- A line of the source is not shown as a caret line: its number ends with a colon. -/
theorem caretLine_not_mem_shownLines (source : List Char) (numbers : List Nat) (indent : Nat) :
    caretLine indent ∉ shownLines source numbers := by
  intro h
  obtain ⟨number, _, heq⟩ := List.mem_map.1 h
  have hcolon : ':' ∈ (caretLine indent).toList := by
    rw [← heq]
    simp
  rw [caretLine_toList] at hcolon
  rcases List.mem_append.1 hcolon with hspace | hmark
  · exact absurd (List.eq_of_mem_replicate hspace) (by decide)
  · exact absurd hmark (by decide)

/-- The lines of the excerpt around a line of the source. -/
theorem lines_markedContext {source : List Char} {line indent : Nat} (hline : 1 ≤ line)
    (hlast : line ≤ (lines source).length) :
    (lines (markedContext source line indent).toList).map String.ofList
      = shownLines source (List.Ico (max 1 (line - 2)) (line + 1)) ++ caretLine indent ::
        shownLines source (List.Ico (line + 1) (min (lines source).length (line + 2) + 1)) := by
  rw [markedContext_eq hline hlast, String.toList_intercalate]
  show (lines (['\n'].intercalate _)).map String.ofList = _
  rw [Text.lines_intercalate (by simp)]
  · rw [List.map_map]
    exact (List.map_congr_left fun shown _ => String.ofList_toList).trans (List.map_id _)
  · intro text htext
    obtain ⟨shown, hshown, rfl⟩ := List.mem_map.1 htext
    rcases List.mem_append.1 hshown with habove | hbelow
    · exact lineFeed_not_mem_shownLines habove
    · rcases List.mem_cons.1 hbelow with rfl | hbelow
      · exact lineFeed_not_mem_caretLine indent
      · exact lineFeed_not_mem_shownLines hbelow

/-! ## The line that a report is about -/

/-- The line of a report is a line of the source: what is read before the place has no more line
    feeds than what stands before it. -/
theorem report_line_le {mode : Mode} {file text : String} {stop : Stop} {n : Nat}
    (h : mode.ReadsTo text.toList n stop.offset) :
    (stop.report mode file text).line ≤ (lines text.toList).length := by
  have hlast := Text.lineAt_le_length_lines text.toList n
  rw [lineAt, h.take_eq, List.count_append] at hlast
  rw [report_line h]
  omega

theorem foundIn_ne_endOfInput (text : List Char) (column : Int) :
    foundIn text column ≠ .endOfInput := by
  unfold foundIn
  split
  · split <;> simp
  · simp

/-- On a line of the source something is found, were it the end of the line. -/
theorem exists_foundAt? {source : List Char} {line : Int} (hline : 1 ≤ line)
    (hlast : line ≤ (lines source).length) (column : Int) :
    ∃ found, foundAt? source line column = some found ∧ found ≠ .endOfInput := by
  have hget : (line - 1).toNat < (lines source).length := by omega
  refine ⟨foundIn (lines source)[(line - 1).toNat] column, ?_, foundIn_ne_endOfInput _ _⟩
  have hnot : ¬ line ≤ 0 := by omega
  simp only [foundAt?, if_neg (Int.not_lt.2 hlast), lineNumbered?, if_neg hnot,
    List.getElem?_eq_getElem hget, Option.map_some]

/-! ## Parse errors with their excerpts -/

/-- The parse error names a place of the text that was read, in two ways: by its offset, and by its
    line and column. -/
structure ParseError.Names (e : ParseError) (read : List Char) (offset line column : Nat) :
    Prop where
  location_eq : e.location = offset
  line_eq : e.line = line
  column_eq : e.column = column
  inText : offset ≤ read.length
  onLine : ∃ content, OnLine read offset line column content

/-- The parse error shows the source around line `line`, which is one of its lines: the lines
    numbered from `line - 2` to `line + 2`, as far as there are any, and a caret line after line
    `line`, which is the only one. -/
structure ParseError.Shows (e : ParseError) (source : List Char) (line column : Nat) : Prop where
  inSource : line ≤ (lines source).length
  found : ∃ found, foundAt? source line column = some found ∧ e.found = some found.format
  context : ∃ context above below, e.context = some context ∧
    (lines context.toList).map String.ofList
      = above ++ caretLine (6 + (column - 1)) :: below ∧
    above = shownLines source (List.Ico (max 1 (line - 2)) (line + 1)) ∧
    below = shownLines source (List.Ico (line + 1) (min (lines source).length (line + 2) + 1)) ∧
    ∀ indent, caretLine indent ∉ above ++ below

theorem ParseError.shows_of_contextOf {e : ParseError} {source : List Char} {line column : Nat}
    (hline : 1 ≤ line) (hlast : line ≤ (lines source).length)
    (hcontext : e.context = some (contextOf source line column))
    (hfound : e.found = some (((foundAt? source line column).getD .endOfInput).format)) :
    e.Shows source line column := by
  have hline' : 1 ≤ (line : Int) := by exact_mod_cast hline
  have hlast' : (line : Int) ≤ (lines source).length := by exact_mod_cast hlast
  obtain ⟨found, hat, -⟩ := exists_foundAt? hline' hlast' column
  refine ⟨hlast, ⟨found, hat, ?_⟩, _, _, _, hcontext, ?_, rfl, rfl, fun indent hmem => ?_⟩
  · rw [hfound, hat, Option.getD_some]
  · rw [contextOf_eq hline hlast]
    exact lines_markedContext hline hlast
  · rcases List.mem_append.1 hmem with habove | hbelow
    · exact caretLine_not_mem_shownLines source _ indent habove
    · exact caretLine_not_mem_shownLines source _ indent hbelow

/-- Every parse error names a place of the text that was read, its line is one of the source, and
    its excerpt shows that line of the source with its neighbours and one caret line. -/
theorem parse_error_excerpt {mode : Mode} {file text : String} {e : ParseError}
    (h : parse mode file text = .error (.refused e)) :
    ∃ offset line column : Nat, e.Names (mode.prepare text.toList) offset line column ∧
      e.Shows text.toList line column := by
  obtain ⟨stop, hread, -, rfl⟩ := parse_eq_refused.1 h
  obtain ⟨n, hn⟩ := exists_readsTo hread
  obtain ⟨hline, hcolumn⟩ := @report_place mode file text stop
  have hinText := hn.offset_le
  have hlast := @report_line_le _ file _ _ _ hn
  rw [hline] at hlast
  refine ⟨stop.offset, lineAt (mode.prepare text.toList) stop.offset,
    columnAt (mode.prepare text.toList) stop.offset,
    ⟨rfl, hline, hcolumn, hinText, _, Text.onLine_of_le hinText⟩,
    ParseError.shows_of_contextOf (Text.one_le_lineAt _ _) (by exact_mod_cast hlast) ?_ ?_⟩
  · rw [← hline, ← hcolumn]
    rfl
  · rw [← hline, ← hcolumn]
    rfl

/-- A source of two blank lines, read as a fragment: all of it is left out before it is read, and
    the error shows both lines, the caret below the first. -/
theorem parse_error_excerpt_blank :
    ∃ e, parse .fragment "f" " \n\t" = .error (.refused e) ∧ e.Names [] 0 1 1 ∧
      e.Shows " \n\t".toList 1 1 ∧
      e.context = some "   1:  \n      ^ Error here\n   2: \t" := by
  have hread : read .fragment "f" " \n\t" = .error ⟨0, .expected .element, []⟩ := by rfl
  have herror := parse_eq_refused.2 ⟨_, hread, nofun, rfl⟩
  obtain ⟨offset, line, column, hnames, hshows⟩ := parse_error_excerpt herror
  have hoffset : ((0 : Nat) : Int) = offset := hnames.location_eq
  have hline : ((1 : Nat) : Int) = line := report_place.1.symm.trans hnames.line_eq
  have hcolumn : ((1 : Nat) : Int) = column := report_place.2.symm.trans hnames.column_eq
  obtain rfl := Int.ofNat.inj hoffset
  obtain rfl := Int.ofNat.inj hline
  obtain rfl := Int.ofNat.inj hcolumn
  exact ⟨_, herror, hnames, hshows, rfl⟩

end Markup

end TagScript
