import TagScript.Proofs.Markup.Excerpt

set_option autoImplicit false

/-! # The hints of a parse error

The hints of a parse error are chosen by the message and by the wording of what was found. A piece
of text found is worded in single quotes, and on a line of the source what is found at its end is
the end of the line. So no parse error says that the end of the input was found, and of the five
hints two are never given: that the document ended early, and that attribute values must be quoted
(`hints_of_parse_error`, `hints_withheld`). -/

namespace TagScript.Markup

open Text (lines lastLine lineAt columnAt expandTabs)

/-! ## Hints -/

namespace Hint

def closeTag : String := "Every <tag> must be closed by a matching </tag> or written as <tag/>"

def escapeAmpersand : String := "Escape '&' in attribute values as '&amp;'"

def quoteValue : String := "Attribute values must be quoted, e.g. value=\"1\""

def endedEarly : String := "The document ended early - check for an unclosed element"

def tagName : String := "Tag names must start with a letter or '_'"

end Hint

/-- The piece of text that was found; none at the end of a line. -/
def Found.piece : Found → List Char
  | .text piece => piece
  | .endOfLine => []
  | .endOfInput => []

/-- The hints that fit a message and a piece of text found. -/
def hintsFor (message piece : List Char) : List String :=
  (if Text.occursIn "closing tag".toList message then [Hint.closeTag] else [])
  ++ (if '&' ∈ piece then [Hint.escapeAmpersand] else [])
  ++ (if '<' ∈ piece ∧ '>' ∉ piece then [Hint.tagName] else [])

theorem toList_format_text (piece : List Char) :
    (Found.text piece).format.toList = Text.singleQuote :: (piece ++ [Text.singleQuote]) := by
  simp [Found.format, Text.singleQuote]

/-- Most characters are in the wording of what was found only if they were found. -/
theorem mem_format {found : Found} (h : found ≠ .endOfInput) {c : Char}
    (hquote : c ≠ Text.singleQuote) (hwords : c ∉ "end of line".toList) :
    c ∈ found.format.toList ↔ c ∈ found.piece := by
  cases found with
  | text piece => simp [toList_format_text, Found.piece, hquote]
  | endOfLine => exact iff_of_false hwords List.not_mem_nil
  | endOfInput => exact absurd rfl h

theorem format_ne_endOfInput {found : Found} (h : found ≠ .endOfInput) :
    found.format.toList ≠ "end of input".toList := by
  cases found with
  | text piece =>
      rw [toList_format_text]
      intro heq
      have hhead := congrArg List.head? heq
      rw [List.head?_cons] at hhead
      exact absurd hhead (by decide)
  | endOfLine => decide
  | endOfInput => exact absurd rfl h

/-- Where an equals sign was found, the wording has a quote, its own. -/
theorem quote_mem_format {found : Found} (h : '=' ∈ found.format.toList) :
    Text.singleQuote ∈ found.format.toList := by
  cases found with
  | text piece =>
      rw [toList_format_text]
      exact List.mem_cons_self
  | endOfLine => exact absurd h (by decide)
  | endOfInput => exact absurd h (by decide)

/-- Unless the end of the input is found, the hints are those for the piece. -/
theorem suggestionsFor_format (message : List Char) {found : Found} (h : found ≠ .endOfInput) :
    suggestionsFor message found.format.toList = hintsFor message found.piece := by
  have hunquoted : ¬ (found.format.toList.contains '='
      && !found.format.toList.contains Text.doubleQuote
      && !found.format.toList.contains Text.singleQuote) = true := by
    intro hall
    simp only [Bool.and_eq_true, Bool.not_eq_true', List.contains_iff_mem] at hall
    obtain ⟨⟨hequals, _⟩, hnone⟩ := hall
    rw [List.contains_iff_mem.2 (quote_mem_format hequals)] at hnone
    cases hnone
  have hended : ¬ (found.format.toList == "end of input".toList) = true := by
    rw [beq_iff_eq]
    exact format_ne_endOfInput h
  have hmem : ∀ {c : Char}, c ≠ Text.singleQuote → c ∉ "end of line".toList →
      (found.format.toList.contains c = true ↔ c ∈ found.piece) := fun hquote hwords => by
    rw [List.contains_iff_mem, mem_format h hquote hwords]
  have hampersand := hmem (c := '&') (by decide) (by decide)
  have hopens := hmem (c := '<') (by decide) (by decide)
  have hcloses := hmem (c := '>') (by decide) (by decide)
  have htag : (found.format.toList.contains '<' && !found.format.toList.contains '>') = true
      ↔ '<' ∈ found.piece ∧ '>' ∉ found.piece := by
    rw [Bool.and_eq_true, hopens, Bool.not_eq_true', ← Bool.not_eq_true, hcloses]
  unfold suggestionsFor hintsFor
  rw [if_neg hunquoted, if_neg hended]
  simp only [hampersand, htag, List.append_nil]
  rfl

theorem hint_cases {message piece : List Char} {hint : String} (h : hint ∈ hintsFor message piece) :
    hint = Hint.closeTag ∨ hint = Hint.escapeAmpersand ∨ hint = Hint.tagName := by
  simp only [hintsFor, List.mem_append, List.mem_ite_nil_right, List.mem_singleton] at h
  rcases h with (⟨_, h⟩ | ⟨_, h⟩) | ⟨_, h⟩
  · exact .inl h
  · exact .inr (.inl h)
  · exact .inr (.inr h)

theorem endedEarly_not_mem (message piece : List Char) :
    Hint.endedEarly ∉ hintsFor message piece := by
  intro h
  rcases hint_cases h with h | h | h <;> exact absurd h (by decide)

theorem quoteValue_not_mem (message piece : List Char) :
    Hint.quoteValue ∉ hintsFor message piece := by
  intro h
  rcases hint_cases h with h | h | h <;> exact absurd h (by decide)

/-! ## What is found at a place -/

/-- The text of a source at an offset that an error is about: what stands there on its line, up to
    eleven characters, trimmed. -/
def offending (source : List Char) (n : Nat) : List Char :=
  Text.trim (((source.drop n).takeWhile (· ≠ '\n')).take 11)

theorem foundIn_piece (s t : List Char) :
    (foundIn (s ++ t) ((s.length + 1 : Nat) : Int)).piece = Text.trim (t.take 11) := by
  by_cases ht : t = []
  · subst ht
    have hend : ¬ ((s.length + 1 : Nat) : Int) ≤ (s ++ []).length := by
      rw [List.append_nil]
      omega
    rw [foundIn, if_neg hend]
    rfl
  · have hpos := List.length_pos_iff.2 ht
    have hin : ((s.length + 1 : Nat) : Int) ≤ (s ++ t).length := by
      rw [List.length_append]
      omega
    have hstart : (((s.length + 1 : Nat) : Int) - 1).toNat = s.length := by omega
    have hslice : slice (s ++ t) s.length
        (min ((s ++ t).length : Int) ((s.length + 1 : Nat) + 10)) = t.take 11 := by
      have hpositive : ¬ min ((s ++ t).length : Int) ((s.length + 1 : Nat) + 10) < 0 := by omega
      have hend : (min ((s ++ t).length : Int) ((s.length + 1 : Nat) + 10)).toNat
          = s.length + min 11 t.length := by
        rw [List.length_append]
        omega
      simp only [slice, if_neg hpositive, hend]
      rw [List.take_length_add_append, List.drop_left, ← List.take_eq_take_min]
    rw [foundIn, if_pos hin, hstart, hslice]
    cases htrim : Text.trim (t.take 11) <;> rfl

/-- What is found at a place of the source is what stands there. -/
theorem foundAt?_place {source : List Char} {n : Nat} (hn : n ≤ source.length) {found : Found}
    (h : foundAt? source (lineAt source n) (columnAt source n) = some found) :
    found.piece = offending source n := by
  have hlast := Text.lineAt_le_length_lines source n
  have hline := Text.one_le_lineAt source n
  have hindex : ((lineAt source n : Int) - 1).toNat = lineAt source n - 1 := by omega
  have hat : foundAt? source (lineAt source n) (columnAt source n)
      = some (foundIn (Text.lineOf source n) (columnAt source n)) := by
    rw [foundAt?, if_neg (by omega), lineNumbered?, if_neg (by omega), hindex, Text.lineOf_spec]
    rfl
  rw [hat] at h
  rw [← Option.some.inj h, Text.columnAt_eq hn, Text.lineOf, foundIn_piece, offending]

/-- Beyond the end of the last line of a source the end of the line is found. -/
theorem foundAt?_end {source : List Char} {line column : Int}
    (hline : line = (source.count '\n' + 1 : Nat)) (hcolumn : (lastLine source).length < column) :
    foundAt? source line column = some .endOfLine := by
  have hlast : (lines source)[(line - 1).toNat]? = some (lastLine source) := by
    have hget := Text.getElem?_lines source []
    have hindex : (line - 1).toNat = source.count '\n' := by omega
    rw [List.append_nil, List.takeWhile_nil, List.append_nil] at hget
    rw [hindex, hget]
  have hlength := Text.length_lines source
  rw [foundAt?, if_neg (by omega), lineNumbered?, if_neg (by omega), hlast, Option.map_some,
    foundIn, if_neg (Int.not_le.2 hcolumn)]

/-! ## The end of a document -/

/-- The end of a prepared document is read at the end of the source. -/
theorem Mode.ReadsTo.eq_length {source : List Char} {n : Nat}
    (h : Mode.ReadsTo .document source n (Mode.document.prepare source).length) :
    n = source.length := by
  have hle := h.le_length
  have hsame : (expandTabs (source.take n)).length = (expandTabs source).length := by
    exact_mod_cast h.sameLength
  by_contra hne
  have hless := Text.length_expandTabs_take_lt (s := source) (m := n) (by omega)
    (Nat.le_refl source.length)
  rw [List.take_length] at hless
  omega

/-- A document whose reading stops at its end is reported with the end of a line. -/
theorem report_end {file text : String} {stop : Stop}
    (hstop : readPrepared .document file (Mode.document.prepare text.toList) = .error stop)
    (hend : stop.offset = (Mode.document.prepare text.toList).length) :
    foundAt? text.toList (stop.report .document file text).line
      (stop.report .document file text).column = some .endOfLine := by
  obtain ⟨n, hn⟩ := exists_readsTo hstop
  have hlength : n = text.toList.length := by
    rw [hend] at hn
    exact hn.eq_length
  have hbefore : Mode.document.readBefore text.toList n = text.toList := by
    rw [Mode.readBefore, hlength]
    exact List.take_length
  have hline := @report_line _ file _ _ _ hn
  have hcolumn := @report_column _ file _ _ _ hn
  rw [hbefore] at hline hcolumn
  refine foundAt?_end hline ?_
  have hgrows := (Text.Spaced.expandTabsFrom 0 (lastLine text.toList)).length_le
  rw [hcolumn, expandTabs]
  omega

/-! ## Main result -/

/-- What a parse error says was found is a piece of text or the end of a line, and its hints are
    those for the message and that piece. So it is never given the hint that the document ended
    early, at the end of a document neither, nor the hint that attribute values must be quoted,
    whatever stands at its place. -/
theorem hints_of_parse_error {mode : Mode} {file text : String} {e : ParseError}
    (h : parse mode file text = .error (.refused e)) :
    ∃ found : Found, found ≠ .endOfInput ∧ e.found = some found.format ∧
      e.suggestions = hintsFor e.message.toList found.piece ∧
      Hint.endedEarly ∉ e.suggestions ∧ Hint.quoteValue ∉ e.suggestions ∧
      (mode = .document → e.location = (mode.prepare text.toList).length → found = .endOfLine) ∧
      ∀ n, mode.ReadsTo text.toList n e.location → mode.Aligned text.toList n →
        found.piece = offending text.toList n := by
  obtain ⟨stop, hread, -, rfl⟩ := parse_eq_refused.1 h
  obtain ⟨place, hplace⟩ := exists_readsTo hread
  have hfirst : 1 ≤ (stop.report mode file text).line := by
    rw [report_place.1]
    exact_mod_cast Text.one_le_lineAt _ _
  obtain ⟨found, hfound, hne⟩ := exists_foundAt? hfirst (report_line_le hplace)
    (stop.report mode file text).column
  have hformat : (stop.report mode file text).found = some found.format := by
    show some ((foundAt? text.toList (stop.report mode file text).line
      (stop.report mode file text).column).getD .endOfInput).format = _
    rw [hfound, Option.getD_some]
  have hhints : (stop.report mode file text).suggestions
      = hintsFor (stop.report mode file text).message.toList found.piece := by
    rw [← suggestionsFor_format _ hne, ← Option.some.inj hformat]
    rfl
  refine ⟨found, hne, hformat, hhints, ?_, ?_, ?_, fun n hn haligned => ?_⟩
  · rw [hhints]
    exact endedEarly_not_mem _ _
  · rw [hhints]
    exact quoteValue_not_mem _ _
  · rintro rfl hend
    have hoffset : (stop.offset : Int) = (Mode.document.prepare text.toList).length := hend
    exact Option.some.inj (hfound.symm.trans (report_end hread (by exact_mod_cast hoffset)))
  · have hdesignates := (@report_designates_iff _ file _ _ _ hn).2 haligned
    refine foundAt?_place hn.le_length ?_
    rw [← hdesignates.line, ← hdesignates.column]
    exact hfound

/-- A document that ends inside a tag: the end of a line is found, and no hint is given. -/
theorem hints_of_parse_error_unclosed :
    ∃ e, parse .document "f" "<a" = .error (.refused e) ∧ e.location = (2 : Nat) ∧
      e.found = some "end of line" ∧ e.suggestions = [] := by
  have hread : read .document "f" "<a" = .error ⟨2, .expected .tagEnd, []⟩ := by rfl
  have herror := parse_eq_refused.2 ⟨_, hread, nofun, rfl⟩
  obtain ⟨found, -, hfound, hhints, -, -, hend, -⟩ := hints_of_parse_error herror
  obtain rfl := hend rfl rfl
  exact ⟨_, herror, rfl, hfound, hhints⟩

/-- The two hints that are never given fit these two documents: one ends inside a tag, and in the
    other an attribute value has no quotes. -/
theorem hints_withheld :
    (∃ e, parse .document "f" "<a" = .error (.refused e) ∧
      e.location = (Mode.document.prepare "<a".toList).length ∧
      e.found ≠ some Found.endOfInput.format ∧ Hint.endedEarly ∉ e.suggestions) ∧
    ∃ e, parse .document "f" "<a b=1/>" = .error (.refused e) ∧
      Mode.ReadsTo .document "<a b=1/>".toList 3 e.location ∧
      offending "<a b=1/>".toList 3 = "b=1/>".toList ∧ '=' ∈ "b=1/>".toList ∧
      Text.singleQuote ∉ "b=1/>".toList ∧ Text.doubleQuote ∉ "b=1/>".toList ∧
      Hint.quoteValue ∉ e.suggestions := by
  have hend : read .document "f" "<a" = .error ⟨2, .expected .tagEnd, []⟩ := by rfl
  have hvalue : read .document "f" "<a b=1/>" = .error ⟨3, .expected .tagEnd, []⟩ := by rfl
  refine ⟨⟨_, parse_eq_refused.2 ⟨_, hend, nofun, rfl⟩, rfl, ?_, ?_⟩,
    ⟨_, parse_eq_refused.2 ⟨_, hvalue, nofun, rfl⟩, ⟨by decide, by decide, rfl⟩, by decide,
      by decide, by decide, by decide, ?_⟩⟩
  · decide
  · decide
  · decide

end TagScript.Markup
