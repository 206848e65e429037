import TagScript.Proofs.Eval.Parts
import TagScript.Proofs.Layout.Program
import TagScript.Proofs.Shape.Analysis
import TagScript.Proofs.Text.Outline
import TagScript.Proofs.Text.Quoted

set_option autoImplicit false

/-! # The outline of an instruction

The outline of an instruction is an outline of headings. That of the instruction is the word of its
kind with its payload; below it stand the operands and, under markers of their own, the statements
of its blocks. No word of a kind is like a marker, so operands and blocks can be told apart. -/

namespace TagScript

open Text (Outline quotedChars quotedChars_append_inj lineFeed_not_mem_quotedChars)
open Text.Outline (IsHeading LegibleAll append_inj_of_head append_inj_of_without
  render renderAll)

/-! ## Headings of instructions -/

/-- A character of the words of kinds. -/
def Kind.isWordChar (c : Char) : Bool := c.isUpper || c == '_'

/-- The words of kinds are written in capitals and differ from each other. -/
theorem Kind.Known.word_spec {k : Kind} (h : k.Known) :
    k.word ≠ "" ∧ (∀ c ∈ k.word.toList, isWordChar c = true) ∧ ofWord k.word = k := by
  cases k with
  | unknown w => exact absurd rfl (known_iff.1 h w)
  | _ => exact ⟨by decide, List.all_eq_true.1 (by rfl), rfl⟩

namespace Instr

/-- What comes after the word of a kind in a heading. -/
def payloadPart : Option String → List Char
  | some text => '(' :: (quotedChars text.toList ++ [')'])
  | none => []

/-- The heading of an instruction: the word of its kind, and its payload if it has one. -/
def headline (k : Kind) (v : Option String) : List Char :=
  k.word.toList ++ payloadPart v

theorem payloadPart_inj {v w : Option String} (h : payloadPart v = payloadPart w) : v = w := by
  cases v with
  | none =>
      cases w with
      | none => rfl
      | some t => cases h
  | some s =>
      cases w with
      | none => cases h
      | some t =>
          obtain ⟨htext, -⟩ := quotedChars_append_inj (List.cons.inj h).2
          rw [String.toList_inj.1 htext]

theorem payloadPart_without (v : Option String) :
    Markup.StartsWithout Kind.isWordChar (payloadPart v) := by
  cases v with
  | none => exact .nil
  | some text => exact .cons (by decide) _

/-- The heading of an instruction of a known kind can be taken apart. -/
theorem headline_inj {k l : Kind} {v w : Option String} (hk : k.Known) (hl : l.Known)
    (h : headline k v = headline l w) : k = l ∧ v = w := by
  obtain ⟨-, hcapitals, hkind⟩ := hk.word_spec
  obtain ⟨-, hcapitals', hkind'⟩ := hl.word_spec
  obtain ⟨hword, hpayload⟩ := append_inj_of_without hcapitals hcapitals' (payloadPart_without v)
    (payloadPart_without w) h
  rw [← hkind, ← hkind', String.toList_inj.1 hword]
  exact ⟨rfl, payloadPart_inj hpayload⟩

/-- The heading of an instruction of a known kind starts with a capital letter. -/
theorem exists_headline {k : Kind} (hk : k.Known) (v : Option String) :
    ∃ c rest, headline k v = c :: rest ∧ Kind.isWordChar c = true := by
  obtain ⟨hne, hcapitals, -⟩ := hk.word_spec
  cases hword : k.word.toList with
  | nil => exact absurd (String.toList_eq_nil_iff.1 hword) hne
  | cons c rest =>
      refine ⟨c, rest ++ payloadPart v, ?_, hcapitals c (by simp [hword])⟩
      rw [headline, hword]
      rfl

theorem isHeading_headline {k : Kind} (hk : k.Known) (v : Option String) :
    IsHeading (headline k v) := by
  obtain ⟨c, rest, hheadline, hc⟩ := exists_headline hk v
  refine ⟨?_, ?_, ?_⟩
  · rw [hheadline]
    exact List.cons_ne_nil _ _
  · rw [hheadline]
    refine .cons ?_ rest
    rw [beq_eq_false_iff_ne]
    intro hspace
    subst hspace
    exact absurd hc (by decide)
  · rw [headline, List.mem_append, not_or]
    refine ⟨fun hmem => absurd (hk.word_spec.2.1 _ hmem) (by decide), ?_⟩
    cases v with
    | none => simp [payloadPart]
    | some text => simp [payloadPart, lineFeed_not_mem_quotedChars]

/-! ## Instructions -/

/-- The heading of a block with its statements below it; a block without statements has none. -/
def block (marker : String) (statements : List Outline) : List Outline :=
  if statements.isEmpty then [] else [.mk marker.toList statements]

mutual

/-- The headings of an instruction. -/
def headings : Instr → Outline
  | mk k v os b o _ =>
    .mk (headline k v)
      (headingsAll os ++ (block "do:" (headingsAll b) ++ block "else:" (headingsAll o)))

/-- The headings of a list of instructions. -/
def headingsAll : List Instr → List Outline
  | [] => []
  | i :: rest => headings i :: headingsAll rest

end

theorem renderAll_append (level : Nat) (os ps : List Outline) :
    renderAll level (os ++ ps) = renderAll level os ++ renderAll level ps := by
  induction os with
  | nil => rfl
  | cons o os ih => simp only [List.cons_append, renderAll, ih, List.append_assoc]

/-- The lines of a block are its marker and its statements, if it has any. -/
theorem toList_block {level : Nat} {marker line : String} {is : List Instr}
    (hline : line.toList = marker.toList ++ ['\n'])
    (his : (outlineAll (level + 1) is).toList = renderAll (level + 1) (headingsAll is)) :
    (if is.isEmpty then "" else Text.indentation level ++ line ++ outlineAll (level + 1) is).toList
      = renderAll level (block marker (headingsAll is)) := by
  have hempty : (headingsAll is).isEmpty = is.isEmpty := by cases is <;> rfl
  rw [block, hempty]
  split
  · rfl
  · simp only [renderAll, render, String.toList_append, hline, his, List.append_assoc,
      List.append_nil]
    simp [Text.indentation]

mutual

theorem toList_outline : (i : Instr) → (level : Nat) →
    (i.outline level).toList = i.headings.render level
  | .mk k v os b o s, level => by
    have hbody := toList_block (show "do:\n".toList = "do:".toList ++ ['\n'] from rfl)
      (toList_outlineAll b (level + 2))
    have helse := toList_block (show "else:\n".toList = "else:".toList ++ ['\n'] from rfl)
      (toList_outlineAll o (level + 2))
    simp only [outline, headings, headline, render, renderAll_append, ← hbody, ← helse,
      String.toList_append, toList_outlineAll os, List.append_assoc]
    cases v with
    | none => simp [Text.indentation, payloadPart]
    | some text => simp [Text.indentation, payloadPart, Text.quoted]

theorem toList_outlineAll : (is : List Instr) → (level : Nat) →
    (outlineAll level is).toList = renderAll level (headingsAll is)
  | [], _ => rfl
  | i :: rest, level => by
    simp only [outlineAll, headingsAll, renderAll, String.toList_append, toList_outline i,
      toList_outlineAll rest]

end

/-- What is inside a part of an instruction is inside the instruction. -/
theorem parts_subset_of_mem_parts (i : Instr) : ∀ j ∈ i.parts, j.parts ⊆ i.parts :=
  forall_parts (fun _ h => h) fun c hc j hj =>
    List.Subset.trans (parts_subset_of_mem_parts c j hj) (parts_subset_of_mem hc)
termination_by i.parts.length
decreasing_by exact length_parts_lt hc

/-- The instruction can be shown and taken back: its kind is known, and it was written somewhere. -/
structure Showable (i : Instr) : Prop where
  known : i.kind.Known
  placed : i.span.isSome = true

theorem legibleAll_append {os ps : List Outline} (hos : LegibleAll os) (hps : LegibleAll ps) :
    LegibleAll (os ++ ps) := by
  induction os with
  | nil => exact hps
  | cons o os ih =>
      rcases hos with _ | ⟨ho, hos⟩
      exact .cons ho (ih hos)

theorem legibleAll_block {marker : String} {statements : List Outline}
    (hmarker : IsHeading marker.toList) (h : LegibleAll statements) :
    LegibleAll (block marker statements) := by
  unfold block
  split
  · exact .nil
  · exact .cons (.mk hmarker h) .nil

theorem isHeading_do : IsHeading "do:".toList := ⟨by decide, .cons (by decide) _, by decide⟩

theorem isHeading_else : IsHeading "else:".toList := ⟨by decide, .cons (by decide) _, by decide⟩

mutual

theorem legible_headings : (i : Instr) → (∀ j ∈ i.parts, j.Showable) → i.headings.Legible
  | .mk k v os b o s, hi => by
    obtain ⟨⟨hknown, -⟩, hchildren⟩ := List.forall_mem_cons.1 hi
    rw [List.forall_mem_append, List.forall_mem_append] at hchildren
    obtain ⟨⟨hos, hb⟩, ho⟩ := hchildren
    exact .mk (isHeading_headline hknown v) (legibleAll_append (legibleAll_headings os hos)
      (legibleAll_append (legibleAll_block isHeading_do (legibleAll_headings b hb))
        (legibleAll_block isHeading_else (legibleAll_headings o ho))))

theorem legibleAll_headings : (is : List Instr) → (∀ j ∈ partsAll is, j.Showable) →
    LegibleAll (headingsAll is)
  | [], _ => .nil
  | i :: rest, his => by
    obtain ⟨hi, hrest⟩ := List.forall_mem_append.1 his
    exact .cons (legible_headings i hi) (legibleAll_headings rest hrest)

end

/-! ## Operands and blocks -/

/-- The outline is that of an instruction, and not that of a block. -/
def IsOperand (o : Outline) : Prop := ∃ c rest, o.head = c :: rest ∧ Kind.isWordChar c = true

theorem isOperand_headingsAll {is : List Instr} (his : ∀ j ∈ partsAll is, j.Showable) :
    ∀ o ∈ headingsAll is, IsOperand o := by
  induction is with
  | nil => exact nofun
  | cons i rest ih =>
      obtain ⟨hi, hrest⟩ := List.forall_mem_append.1 his
      rw [headingsAll, List.forall_mem_cons]
      refine ⟨?_, ih hrest⟩
      have hknown := (hi i i.self_mem_parts).known
      obtain ⟨k, v, os, b, o, s⟩ := i
      exact exists_headline hknown v

theorem head_of_mem_block {marker : String} {statements : List Outline} :
    ∀ o ∈ block marker statements, o.head = marker.toList := by
  unfold block
  split
  · exact nofun
  · intro o ho
    rw [List.mem_singleton.1 ho]
    rfl

theorem not_isOperand_block {marker : String} {c : Char} {rest : List Char}
    (hmarker : marker.toList = c :: rest) (hc : Kind.isWordChar c = false)
    (statements : List Outline) : ∀ o ∈ block marker statements, ¬ IsOperand o := by
  intro o ho hoperand
  obtain ⟨d, _, hhead, hd⟩ := hoperand
  rw [head_of_mem_block o ho, hmarker] at hhead
  cases hhead
  rw [hc] at hd
  cases hd

theorem not_isOperand_blocks (bs os : List Outline) :
    ∀ o ∈ (block "do:" bs ++ block "else:" os).head?, ¬ IsOperand o := by
  intro o ho
  rcases List.mem_append.1 (List.mem_of_head? ho) with hbody | helse
  · exact not_isOperand_block rfl (by decide) bs o hbody
  · exact not_isOperand_block rfl (by decide) os o helse

/-- A block that is not there has no statements. -/
theorem block_inj {marker : String} {bs bs' : List Outline}
    (h : block marker bs = block marker bs') : bs = bs' := by
  cases bs with
  | nil =>
      cases bs' with
      | nil => rfl
      | cons b' bs' => cases h
  | cons b bs =>
      cases bs' with
      | nil => cases h
      | cons b' bs' =>
          cases h
          rfl

/-- The two blocks of an instruction can be told apart by their markers. -/
theorem blocks_inj {bs bs' os os' : List Outline}
    (h : block "do:" bs ++ block "else:" os = block "do:" bs' ++ block "else:" os') :
    bs = bs' ∧ os = os' := by
  have hmarkers : ∀ {os : List Outline}, ∀ o ∈ (block "else:" os).head?,
      ¬ o.head = "do:".toList := by
    intro os o ho hhead
    rw [head_of_mem_block o (List.mem_of_head? ho)] at hhead
    exact absurd hhead (by decide)
  obtain ⟨hbody, helse⟩ :=
    append_inj_of_head head_of_mem_block head_of_mem_block hmarkers hmarkers h
  exact ⟨block_inj hbody, block_inj helse⟩

mutual

/-- Instructions with the same headings are the same up to where they were written. -/
theorem bare_eq_of_headings : (i j : Instr) → (∀ k ∈ i.parts, k.Showable) →
    (∀ k ∈ j.parts, k.Showable) → i.headings = j.headings → i.bare = j.bare
  | .mk k v os b o s, .mk k' v' os' b' o' s', hi, hj, h => by
    simp only [headings, Outline.mk.injEq] at h
    obtain ⟨hheadline, hbelow⟩ := h
    obtain ⟨⟨hknown, hplaced⟩, hchildren⟩ := List.forall_mem_cons.1 hi
    obtain ⟨⟨hknown', hplaced'⟩, hchildren'⟩ := List.forall_mem_cons.1 hj
    rw [List.forall_mem_append, List.forall_mem_append] at hchildren hchildren'
    obtain ⟨⟨hos, hb⟩, ho⟩ := hchildren
    obtain ⟨⟨hos', hb'⟩, ho'⟩ := hchildren'
    have hsame : k = k' ∧ v = v' := headline_inj hknown hknown' hheadline
    obtain ⟨rfl, rfl⟩ := hsame
    -- operands end at the first marker, and the two blocks have markers of their own
    obtain ⟨hoperands, hblocks⟩ := append_inj_of_head (isOperand_headingsAll hos)
      (isOperand_headingsAll hos') (not_isOperand_blocks _ _) (not_isOperand_blocks _ _) hbelow
    obtain ⟨hbody, helse⟩ := blocks_inj hblocks
    have hspan : Span.forget s = Span.forget s' := by
      obtain ⟨span, rfl⟩ := Option.isSome_iff_exists.1 hplaced
      obtain ⟨span', rfl⟩ := Option.isSome_iff_exists.1 hplaced'
      rfl
    simp only [bare, bareAll_eq_of_headings os os' hos hos' hoperands,
      bareAll_eq_of_headings b b' hb hb' hbody, bareAll_eq_of_headings o o' ho ho' helse, hspan]

theorem bareAll_eq_of_headings : (is js : List Instr) → (∀ k ∈ partsAll is, k.Showable) →
    (∀ k ∈ partsAll js, k.Showable) → headingsAll is = headingsAll js → bareAll is = bareAll js
  | [], [], _, _, _ => rfl
  | i :: is, j :: js, his, hjs, h => by
    simp only [headingsAll, List.cons.injEq] at h
    obtain ⟨hi, hrest⟩ := List.forall_mem_append.1 his
    obtain ⟨hj, hrest'⟩ := List.forall_mem_append.1 hjs
    simp only [bareAll, bare_eq_of_headings i j hi hj h.1,
      bareAll_eq_of_headings is js hrest hrest' h.2]

end

end Instr

end TagScript
