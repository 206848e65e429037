import TagScript.Proofs.Markup.Decoding
import TagScript.Proofs.Markup.Stops

set_option autoImplicit false

/-! # What becomes of a text

A text has the one tree that the grammar derives from it or, if there is none, is refused with the
report of a stop. There is a third outcome: the value of an attribute holds a decimal reference of
too many digits, and reading crashes (`parse_exact`), whatever number the digits denote
(`parse_digits_neither`). Texts in which an attribute refers to the code point of a surrogate are
left aside. -/

namespace TagScript.Markup

open Cursor (past)

variable {mode : Mode} {file text : String}

theorem ValueIn.mem {s raw : List Char} (h : ValueIn s raw) {c : Char} (hc : c ∈ raw) : c ∈ s := by
  cases h
  simp [hc]

/-- A crash is that of decoding a value that is written in the text. -/
theorem exists_valueIn_of_parse {cause : Crash}
    (h : parse mode file text = .error (.crashed cause)) :
    ∃ raw, ValueIn (mode.prepare text.toList) raw ∧
      Entity.decode raw = .error (.crash cause) := by
  obtain ⟨stop, hread, hcause⟩ := parse_eq_crashed.1 h
  exact exists_valueIn_of_readPrepared hread hcause

/-- Among texts without references to surrogates, a text has the tree that the grammar derives from
    it, and the grammar derives one tree at most. Where it derives none, the text is refused with
    the report of a stop, or the first reference of some value that cannot be read is a decimal
    one of too many digits, and reading crashes. -/
theorem parse_exact (mode : Mode) (file text : String)
    (hs : ∀ raw, ValueIn (mode.prepare text.toList) raw → Entity.WithoutSurrogates raw) :
    (∀ root, parse mode file text = .ok root ↔ Derives mode file (mode.prepare text.toList) root) ∧
    (∀ root other, Derives mode file (mode.prepare text.toList) root →
      Derives mode file (mode.prepare text.toList) other → root = other) ∧
    ((∀ root, ¬ Derives mode file (mode.prepare text.toList) root) →
      (∃ stop : Stop, parse mode file text = .error (.refused (stop.report mode file text))) ∨
      ∃ raw count before rest, ValueIn (mode.prepare text.toList) raw ∧
        Entity.FirstRefused raw (.crash (.tooManyDigits count)) before rest ∧
        parse mode file text = .error (.crashed (.tooManyDigits count))) := by
  refine ⟨fun root => parse_eq_ok, fun root other => Derives.unique, fun hnone => ?_⟩
  cases h : parse mode file text with
  | ok root => exact absurd (parse_eq_ok.1 h) (hnone root)
  | error failure =>
      cases failure with
      | refused e =>
          obtain ⟨stop, -, -, rfl⟩ := parse_eq_refused.1 h
          exact .inl ⟨stop, rfl⟩
      | crashed cause =>
          obtain ⟨raw, hraw, hdecode⟩ := exists_valueIn_of_parse h
          obtain ⟨before, rest, hfirst⟩ := Entity.firstRefused_of_decode (hs raw hraw) hdecode
          -- of the faults of a reference, only that of too many digits is a crash
          obtain ⟨count, rfl⟩ : ∃ count, cause = .tooManyDigits count := by
            cases hfirst.fault
            exact ⟨_, rfl⟩
          exact .inr ⟨raw, count, before, rest, hraw, hfirst, rfl⟩

/-- Layout, a comment and text around a child leave no trace in the tree. -/
theorem parse_exact_nested :
    Derives .document "f" (Mode.document.prepare "<!-- > --><A x='&lt;'> t <b/></a >".toList)
      (.mk "a" [("x", "<")] [.mk "b" [] [] ⟨⟨"f", 1, 26, 1, 30⟩, true⟩]
        ⟨⟨"f", 1, 11, 1, 35⟩, false⟩) := by
  refine ((parse_exact .document "f" "<!-- > --><A x='&lt;'> t <b/></a >" ?_).1 _).1 ?_
  · intro raw hraw
    exact .of_not_mem fun hmem => absurd (hraw.mem hmem) (by decide)
  · rfl

/-! ## Values that cannot be decoded -/

section FirstValue

variable {gap name left right raw : List Char} {quote : Char} {fault : Entity.Fault}

theorem attributes_value_error (hgap : IsLayout gap) (hname : IsName name) (hleft : IsLayout left)
    (hright : IsLayout right) (hquote : quote = Text.doubleQuote ∨ quote = Text.singleQuote)
    (hraw : ∀ c ∈ raw, c ≠ quote ∧ c ≠ '<') (hdecode : Entity.decode raw = .error fault)
    (fuel : Nat) (before rest : List Char) :
    ∃ stop, attributes (fuel + 1) (past before
        (gap ++ name ++ left ++ ['='] ++ right ++ [quote] ++ raw ++ [quote] ++ rest))
          = .error stop ∧ stop.cause = .entity fault := by
  obtain ⟨written, hread, -, rfl, -⟩ :=
    rawAttribute?_past_append hgap hname hleft hright hquote hraw before rest
  refine ⟨written.quote.stop (.entity fault) [], ?_, rfl⟩
  rw [attributes, hread]
  simp only [hdecode]

/-- An element is not read if the value of its first attribute cannot be decoded. -/
theorem element_value_error {tag : List Char} (htag : IsName tag) (hne : gap ≠ [])
    (hgap : IsLayout gap) (hname : IsName name) (hleft : IsLayout left) (hright : IsLayout right)
    (hquote : quote = Text.doubleQuote ∨ quote = Text.singleQuote)
    (hraw : ∀ c ∈ raw, c ≠ quote ∧ c ≠ '<') (hdecode : Entity.decode raw = .error fault)
    (fuel : Nat) (before rest : List Char) :
    ∃ stop, element file (fuel + 2) (past before ('<' :: (tag ++
        (gap ++ name ++ left ++ ['='] ++ right ++ [quote] ++ raw ++ [quote] ++ rest))))
          = .error stop ∧ stop.cause = .entity fault := by
  obtain ⟨stop, hread, hcause⟩ := attributes_value_error hgap hname hleft hright hquote hraw hdecode
    fuel (before ++ ['<'] ++ tag) rest
  generalize hwritten : gap ++ name ++ left ++ ['='] ++ right ++ [quote] ++ raw ++ [quote] ++ rest
    = written at hread ⊢
  have hend : StartsWithout isNameRest written := by
    obtain ⟨x, gap, rfl⟩ := List.exists_cons_of_ne_nil hne
    rw [← hwritten]
    exact .cons (not_isNameRest_of_isLayout (hgap x List.mem_cons_self)) _
  have hopen : '<' :: (tag ++ written) = ['<'] ++ (tag ++ written) := rfl
  have hskip : (past before ([] ++ '<' :: (tag ++ written))).skipLayout
      = past (before ++ []) ('<' :: (tag ++ written)) :=
    skipLayout_past before .nil (.cons (by decide) _)
  rw [List.nil_append, List.append_nil] at hskip
  refine ⟨stop, ?_, hcause⟩
  rw [element, hskip, hopen, Cursor.after?_past_append]
  simp only [name?_past.2 ⟨written, rfl, htag, hend, rfl⟩, hread]

end FirstValue

/-- The document of one element with one attribute, of which the raw value is given. -/
def attributeDocument (raw : List Char) : List Char :=
  ['<', 'a', ' ', 'b', '=', Text.doubleQuote] ++ raw ++ [Text.doubleQuote, '/', '>']

theorem skip_attributeDocument (raw : List Char) :
    Mode.document.skip (past [] (attributeDocument raw)) = past [] (attributeDocument raw) := by
  have hfirst : StartsWithout Text.isLayout (attributeDocument raw) := .cons (by decide) _
  have hmark : ¬ ['<', '!'] <+: attributeDocument raw := by simp [attributeDocument]
  have hquery : ¬ ['<', '?'] <+: attributeDocument raw := by simp [attributeDocument]
  have haround : Mode.document.Around [] := Surroundings.layout .nil
  obtain ⟨skipped, gap, hnil, -, hskip⟩ :=
    @Mode.skip_complete .document [] [] (attributeDocument raw) haround hfirst hmark hquery
  obtain ⟨rfl, rfl⟩ := List.append_eq_nil_iff.1 hnil.symm
  exact hskip

theorem read_attributeDocument {raw : List Char} {fault : Entity.Fault}
    (hraw : ∀ c ∈ raw, c ≠ Text.doubleQuote ∧ c ≠ '<') (htab : '\t' ∉ raw)
    (hdecode : Entity.decode raw = .error fault) :
    ∃ stop, read .document file (String.ofList (attributeDocument raw)) = .error stop ∧
      stop.cause = .entity fault := by
  have hprepared : Mode.document.prepare (String.ofList (attributeDocument raw)).toList
      = attributeDocument raw := by
    rw [String.toList_ofList]
    refine Text.expandTabsFrom_of_not_mem 0 _ ?_
    simp [attributeDocument, htab, Text.doubleQuote]
  have hlength : (attributeDocument raw).length + 1 = raw.length + 8 + 2 := by
    simp [attributeDocument]
  have hsplit : attributeDocument raw = '<' :: (['a'] ++ ([' '] ++ ['b'] ++ [] ++ ['='] ++ []
      ++ [Text.doubleQuote] ++ raw ++ [Text.doubleQuote] ++ ['/', '>'])) := by
    simp [attributeDocument]
  obtain ⟨stop, hread, hcause⟩ : ∃ stop, element file ((attributeDocument raw).length + 1)
      (past [] (attributeDocument raw)) = .error stop ∧ stop.cause = .entity fault := by
    rw [hlength, hsplit]
    exact element_value_error (by decide) (by decide) (by decide) (by decide) .nil .nil (.inl rfl)
      hraw hdecode _ _ _
  refine ⟨stop, ?_, hcause⟩
  rw [read, hprepared, readPrepared, Cursor.start_eq_past, skip_attributeDocument, hread]

/-- A reference in 4301 nines: the grammar derives no tree, and the text is not refused either. -/
theorem parse_digits_neither :
    (∀ root, ¬ Derives .document "f" (Mode.document.prepare (String.ofList (attributeDocument
        ('&' :: '#' :: (List.replicate 4301 '9' ++ [';'])))).toList) root) ∧
    ∀ e, parse .document "f" (String.ofList (attributeDocument
        ('&' :: '#' :: (List.replicate 4301 '9' ++ [';'])))) ≠ .error (.refused e) := by
  have hnine : ∀ {c}, c ∈ List.replicate 4301 '9' → c = '9' := List.eq_of_mem_replicate
  generalize hdigits : List.replicate 4301 '9' = digits at hnine ⊢
  have hlong : Text.digitLimit < digits.length := by
    rw [← hdigits, List.length_replicate]
    decide
  have hall : ∀ d ∈ digits, d.isDigit = true := by
    intro d hd
    rw [hnine hd]
    rfl
  have hdecode := (Entity.TooLong.mk hall hlong).decode_eq []
  have hmem : ∀ c ∈ '&' :: '#' :: (digits ++ [';']), c = '&' ∨ c = '#' ∨ c = '9' ∨ c = ';' := by
    intro c hc
    simp only [List.mem_cons, List.mem_append, List.not_mem_nil, or_false] at hc
    rcases hc with h | h | h | h
    · exact .inl h
    · exact .inr (.inl h)
    · exact .inr (.inr (.inl (hnine h)))
    · exact .inr (.inr (.inr h))
  have hparse : parse .document "f" (String.ofList (attributeDocument
      ('&' :: '#' :: (digits ++ [';'])))) = .error (.crashed (.tooManyDigits digits.length)) :=
    parse_eq_crashed.2 (read_attributeDocument
      (fun c hc => by rcases hmem c hc with rfl | rfl | rfl | rfl <;> decide)
      (fun hc => absurd (hmem _ hc) (by decide)) hdecode)
  constructor
  · intro root hroot
    rw [parse_eq_ok.2 hroot] at hparse
    cases hparse
  · intro e he
    rw [he] at hparse
    cases hparse

end TagScript.Markup
