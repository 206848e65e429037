import TagScript.Proofs.Markup.Columns
import TagScript.Proofs.Markup.Exact

set_option autoImplicit false

/-! # Where and why reading stops

Reading stops where layout has just been skipped, right after a mark such as `<`, or at a quote.
In any of these places a space is missing on one side, so reading never stops inside a run of spaces
(`readPrepared_stop`). In a text whose tabs were expanded this is to say that it never stops inside
a tab. A stop over the references of a value has that value in the text
(`exists_valueIn_of_readPrepared`). -/

namespace TagScript.Markup

open Cursor (past)
open Text (InsideSpaces)

variable {file : String}

/-! ## Edges -/

/-- A cursor of the text that is not inside a run of spaces. -/
def Cursor.AtEdge (text : List Char) (c : Cursor) : Prop :=
  ∃ before rest, text = before ++ rest ∧ c = past before rest ∧ ¬ InsideSpaces before rest

/-- The raw value is written in the text as that of an attribute. -/
inductive ValueIn : (text raw : List Char) → Prop where
  | mk {before name left right raw after : List Char} {quote : Char} :
      IsName name → IsLayout left → IsLayout right →
      (quote = Text.doubleQuote ∨ quote = Text.singleQuote) →
      (∀ c ∈ raw, c ≠ quote ∧ c ≠ '<') →
      ValueIn (before ++ (name ++ left ++ ['='] ++ right ++ [quote] ++ raw ++ [quote]) ++ after) raw

/-- If the cause is a fault of references, a value with that fault is written in the text. -/
def Cause.StandsIn (text : List Char) : Cause → Prop
  | .entity fault => ∃ raw, ValueIn text raw ∧ Entity.decode raw = .error fault
  | _ => True

/-- A stop at a cursor that is not inside a run of spaces, with a cause that is found in the
    text. -/
structure Stop.AtEdge (text : List Char) (stop : Stop) : Prop where
  edge : ∃ c : Cursor, c.AtEdge text ∧ stop.offset = c.offset
  cause : stop.cause.StandsIn text

theorem Cursor.offset_past (before rest : List Char) :
    (past before rest).offset = before.length := by
  simp [past, offset_advance, start]

theorem Cursor.atEdge_of_not_layout {r : List Char} (before : List Char)
    (h : StartsWithout Text.isLayout r) : (past before r).AtEdge (before ++ r) := by
  refine ⟨before, r, rfl, rfl, fun hspaces => ?_⟩
  have hspace := h ' ' hspaces.2
  cases hspace

theorem Cursor.atEdge_of_mark {mark : List Char} (hmark : ∃ x, mark.getLast? = some x ∧ x ≠ ' ')
    (before r : List Char) : (past (before ++ mark) r).AtEdge (before ++ (mark ++ r)) := by
  obtain ⟨x, hlast, hx⟩ := hmark
  refine ⟨before ++ mark, r, by simp, rfl, fun hspaces => hx ?_⟩
  have hspace := hspaces.1
  rw [List.getLast?_append, hlast] at hspace
  exact Option.some.inj hspace

theorem Cursor.AtEdge.stop {text : List Char} {c : Cursor} (h : c.AtEdge text) (cause : Cause)
    (hcause : cause.StandsIn text) (completed : List Node) : (c.stop cause completed).AtEdge text :=
  ⟨⟨c, h, rfl⟩, hcause⟩

/-- Elements completed earlier do not move a stop. -/
theorem Stop.AtEdge.after {text : List Char} {stop : Stop} (h : stop.AtEdge text)
    (earlier : List Node) : (stop.after earlier).AtEdge text :=
  ⟨h.edge, h.cause⟩

/-! ## Attributes -/

theorem rawAttribute?_quote {before rest : List Char} {a : RawAttribute}
    (h : rawAttribute? (past before rest) = some a) :
    a.quote.AtEdge (before ++ rest) ∧ ValueIn (before ++ rest) a.raw := by
  unfold rawAttribute? at h
  obtain ⟨gap, rest, rfl, _, _, hskip⟩ := exists_layout rest
  rw [hskip] at h
  obtain ⟨⟨name, c⟩, hread, h⟩ := Option.bind_eq_some_iff.1 h
  obtain ⟨rest, rfl, hname, _, rfl⟩ := name?_past.1 hread
  obtain ⟨left, rest, rfl, hleft, _, hskip⟩ := exists_layout rest
  simp only [hskip] at h
  obtain ⟨c, heq, h⟩ := Option.bind_eq_some_iff.1 h
  obtain ⟨rest, rfl, rfl⟩ := Cursor.after?_past.1 heq
  obtain ⟨right, rest, rfl, hright, hlayout, hskip⟩ := exists_layout rest
  simp only [hskip] at h
  obtain ⟨⟨raw, c⟩, hquoted, h⟩ := Option.bind_eq_some_iff.1 h
  have hedge := Cursor.atEdge_of_not_layout (before ++ gap ++ name ++ left ++ ['='] ++ right)
    hlayout
  obtain ⟨quote, r, hquote, rfl, hraw, _⟩ := quotedText?_past.1 hquoted
  have hvalue : ValueIn (before ++ gap ++ _ ++ r) raw := .mk hname hleft hright hquote hraw
  cases h
  exact ⟨by simpa using hedge, by simpa using hvalue⟩

theorem attributes_stop {fuel : Nat} {before rest : List Char} {stop : Stop}
    (h : attributes fuel (past before rest) = .error stop) : stop.AtEdge (before ++ rest) := by
  induction fuel generalizing before rest stop with
  | zero => cases h
  | succ fuel ih =>
      unfold attributes at h
      split at h
      · cases h
      · rename_i written hwritten
        split at h
        · rename_i fault hfault
          cases h
          obtain ⟨hedge, hvalue⟩ := rawAttribute?_quote hwritten
          exact hedge.stop (.entity fault) ⟨written.raw, hvalue, hfault⟩ _
        · obtain ⟨s, r, rfl, hrest, _⟩ := rawAttribute?_past hwritten
          rw [hrest] at h
          split at h
          · rename_i hmore
            cases h
            simpa using ih hmore
          · cases h

/-! ## Elements and their content -/

theorem complete_stop {text : List Char} {first last : Cursor} {tag : List Char}
    {attributes : List (String × String)} {children : List Node} {selfClosing : Bool} {stop : Stop}
    (hfirst : first.AtEdge text)
    (h : complete file first tag attributes children selfClosing last = .error stop) :
    stop.AtEdge text := by
  unfold complete at h
  split at h
  · cases h
    exact hfirst.stop (.duplicateAttribute _) trivial _
  · cases h

/-- A reader of elements that stops at edges, as long as what is left is shorter than `bound`. -/
def StopsAtEdges (bound : Nat) (element : Cursor → Except Stop (Node × Cursor)) : Prop :=
  ∀ {before rest : List Char} {stop : Stop}, rest.length < bound →
    element (past before rest) = .error stop → stop.AtEdge (before ++ rest)

theorem content_stop {element : Cursor → Except Stop (Node × Cursor)} {bound : Nat}
    (hfinds : FindsOnlyElements file element) (hstops : StopsAtEdges bound element) {fuel : Nat}
    {before rest : List Char} {stop : Stop} (hbound : rest.length < bound)
    (h : content element fuel (past before rest) = .error stop) :
    stop.AtEdge (before ++ rest) := by
  induction fuel generalizing before rest stop with
  | zero => cases h
  | succ fuel ih =>
      -- the content goes on behind a piece of the text that has been read
      have hgo : ∀ {s r : List Char} {stop : Stop}, rest = s ++ r →
          content element fuel (past (before ++ s) r) = .error stop →
            stop.AtEdge (before ++ rest) := by
        rintro s r stop rfl hcontent
        rw [List.length_append] at hbound
        simpa using ih (by omega) hcontent
      unfold content at h
      split at h
      · rename_i c hcomment
        obtain ⟨gap, s, r, hrest, _, _, rfl⟩ := comment?_past.1 hcomment
        rw [List.append_assoc] at h
        exact hgo hrest h
      · split at h
        · rename_i n c hn
          obtain ⟨gap, s, r, hrest, _, _, rfl⟩ := hfinds hn
          rw [List.append_assoc] at h
          split at h
          · cases h
          · rename_i inside hinside
            cases h
            exact (hgo hrest hinside).after _
        · rename_i inside hinside
          split at h
          · cases h
            exact hstops hbound hinside
          · split at h
            · rename_i c htext
              obtain ⟨s, r, hrest, _, rfl⟩ := textRun?_past htext
              exact hgo hrest h
            · cases h

theorem closeElement_stop {first : Cursor} {tag : List Char} {attributes : List (String × String)}
    {inner : Content} {before rest : List Char} {stop : Stop}
    (hfirst : first.AtEdge (before ++ rest)) (hinner : inner.rest = past before rest)
    (h : closeElement file first tag attributes inner = .error stop) :
    stop.AtEdge (before ++ rest) := by
  unfold closeElement at h
  obtain ⟨text, rest, rfl, _, hlayout, hskip⟩ := exists_layout rest
  simp only [hinner, hskip] at h
  split at h
  · cases h
    have hedge := Cursor.atEdge_of_not_layout (before ++ text) hlayout
    simpa using hedge.stop (.expected .closingTag) trivial _
  · rename_i _ hopen
    obtain ⟨rest, rfl, rfl⟩ := Cursor.after?_past.1 hopen
    split at h
    · cases h
      have hmark : ∃ x, ['<', '/'].getLast? = some x ∧ x ≠ ' ' := ⟨'/', rfl, by decide⟩
      have hedge := Cursor.atEdge_of_mark hmark (before ++ text) rest
      simpa using hedge.stop (.expected .name) trivial _
    · rename_i closing _ hread
      obtain ⟨rest, rfl, _, _, rfl⟩ := name?_past.1 hread
      obtain ⟨gap, rest, rfl, _, hlayout, hskip⟩ := exists_layout rest
      rw [hskip] at h
      split at h
      · cases h
        have hedge := Cursor.atEdge_of_not_layout
          (before ++ text ++ ['<', '/'] ++ closing ++ gap) hlayout
        simpa using hedge.stop (.expected .closingTagEnd) trivial _
      · split at h
        · exact complete_stop hfirst h
        · cases h
          exact hfirst.stop (.mismatchedTags _ _) trivial _

theorem element_stop (fuel : Nat) : StopsAtEdges fuel (element file fuel) := by
  induction fuel with
  | zero =>
      intro before rest stop hbound
      cases hbound
  | succ fuel ih =>
      intro before rest stop hbound h
      unfold element at h
      obtain ⟨gap, rest, rfl, _, hlayout, hskip⟩ := exists_layout rest
      have hfirst : (past (before ++ gap) rest).AtEdge (before ++ (gap ++ rest)) := by
        simpa using Cursor.atEdge_of_not_layout (before ++ gap) hlayout
      simp only [hskip] at h
      split at h
      · cases h
        exact hfirst.stop (.expected .element) trivial _
      rename_i _ hopen
      obtain ⟨rest, rfl, rfl⟩ := Cursor.after?_past.1 hopen
      split at h
      · cases h
        have hmark : ∃ x, ['<'].getLast? = some x ∧ x ≠ ' ' := ⟨'<', rfl, by decide⟩
        have hedge := Cursor.atEdge_of_mark hmark (before ++ gap) rest
        simpa using hedge.stop (.expected .name) trivial _
      rename_i tag _ hread
      obtain ⟨rest, rfl, _, _, rfl⟩ := name?_past.1 hread
      split at h
      · rename_i hattrs
        cases h
        simpa using attributes_stop hattrs
      rename_i as _ hread
      obtain ⟨attrs, rest, rfl, _, rfl⟩ := attributes_past hread
      obtain ⟨space, r, rfl, _, hlayout, hskip⟩ := exists_layout rest
      rw [hskip] at h
      split at h
      · exact complete_stop hfirst h
      · rename_i start _ hstart
        obtain ⟨r, rfl, rfl⟩ := Cursor.after?_past.1 hstart
        have hshort : r.length < fuel := by
          simp only [List.length_append, List.length_singleton] at hbound
          omega
        split at h
        · rename_i hcontent
          cases h
          simpa using content_stop (element_sound fuel) ih hshort hcontent
        · rename_i inner hinner
          obtain ⟨inside, r, rfl, hrest, _⟩ := content_sound (element_sound fuel) hinner
          have hclose := closeElement_stop (by simpa using hfirst) hrest h
          simpa using hclose
      · cases h
        have hedge := Cursor.atEdge_of_not_layout
          (before ++ gap ++ ['<'] ++ tag ++ attrs ++ space) hlayout
        simpa using hedge.stop (.expected .tagEnd) trivial _

/-! ## Documents and fragments -/

theorem endOfText_stop {root : Node} {before rest : List Char} {stop : Stop}
    (h : endOfText root (past before rest) = .error stop) : stop.AtEdge (before ++ rest) := by
  obtain ⟨gap, r, rfl, _, hlayout, hskip⟩ := exists_layout rest
  unfold endOfText at h
  rw [hskip] at h
  split at h
  · cases h
  · cases h
    have hedge := Cursor.atEdge_of_not_layout (before ++ gap) hlayout
    simpa using hedge.stop (.expected .endOfText) trivial _

theorem readPrepared_atEdge {mode : Mode} {text : List Char} {stop : Stop}
    (h : readPrepared mode file text = .error stop) : stop.AtEdge text := by
  unfold readPrepared at h
  rw [Cursor.start_eq_past] at h
  obtain ⟨before, rest, rfl, hskip, _⟩ := mode.skip_sound [] text
  rw [hskip] at h
  split at h
  · rename_i hread
    cases h
    refine element_stop _ ?_ hread
    rw [List.length_append]
    omega
  · rename_i root c hread
    obtain ⟨gap, s, r, rfl, _, _, rfl⟩ := element_sound _ hread
    obtain ⟨after, r, rfl, hskip, _⟩ := mode.skip_sound ([] ++ before ++ gap ++ s) r
    rw [hskip] at h
    simpa using endOfText_stop h

/-- Reading stops at a place of the text, and not inside a run of spaces. -/
theorem readPrepared_stop {mode : Mode} {text : List Char} {stop : Stop}
    (h : readPrepared mode file text = .error stop) :
    ∃ before rest, text = before ++ rest ∧ stop.offset = before.length ∧
      ¬ InsideSpaces before rest := by
  obtain ⟨_, ⟨before, rest, rfl, rfl, hspaces⟩, hoffset⟩ := (readPrepared_atEdge h).edge
  exact ⟨before, rest, rfl, hoffset.trans (Cursor.offset_past before rest), hspaces⟩

/-- A stop over references has a value with that fault in the text. -/
theorem exists_valueIn_of_readPrepared {mode : Mode} {text : List Char} {stop : Stop}
    {fault : Entity.Fault} (h : readPrepared mode file text = .error stop)
    (hcause : stop.cause = .entity fault) :
    ∃ raw, ValueIn text raw ∧ Entity.decode raw = .error fault := by
  have hstands := (readPrepared_atEdge h).cause
  rwa [hcause] at hstands

end TagScript.Markup
