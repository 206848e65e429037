import TagScript.Proofs.Outline.Instr
import TagScript.Proofs.Outline.Tree

set_option autoImplicit false

/-! # Outlines lose nothing but places

The trees of sources are named, and the instructions of an analysis are of known kinds and have a
place, so both can be told from their outlines up to where they stand. -/

namespace TagScript

open Markup (Mode Node parse)

/-- The instructions that an analysis gives, at any depth, are of a known kind and have a place. -/
theorem Analysis.instr_showable {n : Markup.Node} {i : Instr} (h : (instr n).outcome = .ok i) :
    ∀ j ∈ i.parts, j.Showable := by
  intro j hj
  obtain ⟨_, _, hspan⟩ := instrOfDepth_spans h j hj
  exact ⟨(instr_shaped h j hj).known, by rw [hspan]; rfl⟩

/-- Elements of sources with the same outline are the same up to where they stand, and so are
    analysed instructions; not even an outline at another level is the same. -/
theorem outline_determines :
    (∀ {mode mode' : Mode} {file file' text text' : String} {root root' n m : Node} {k l : Nat},
      parse mode file text = .ok root → parse mode' file' text' = .ok root' →
      n ∈ root.postorder → m ∈ root'.postorder → n.outline k = m.outline l →
      k = l ∧ n.bare = m.bare) ∧
    ∀ {n m : Node} {i j a b : Instr} {k l : Nat},
      (Analysis.instr n).outcome = .ok i → (Analysis.instr m).outcome = .ok j →
      a ∈ i.parts → b ∈ j.parts → a.outline k = b.outline l →
      k = l ∧ a.bare = b.bare := by
  constructor
  · intro mode mode' file file' text text' root root' n m k l hroot hroot' hn hm h
    have hnamed : n.WellNamed := fun c hc =>
      Markup.wellNamed_of_parse hroot c (root.postorder_subset hn hc)
    have hnamed' : m.WellNamed := fun c hc =>
      Markup.wellNamed_of_parse hroot' c (root'.postorder_subset hm hc)
    have hlines := congrArg String.toList h
    rw [n.toList_outline, m.toList_outline] at hlines
    obtain ⟨hlevel, hheadings⟩ := Text.Outline.render_inj (n.legible_headings hnamed)
      (m.legible_headings hnamed') hlines
    exact ⟨hlevel, n.bare_eq_of_headings m hnamed hnamed' hheadings⟩
  · intro n m i j a b k l hi hj ha hb h
    have hshow : ∀ c ∈ a.parts, c.Showable := fun c hc =>
      Analysis.instr_showable hi c (i.parts_subset_of_mem_parts a ha hc)
    have hshow' : ∀ c ∈ b.parts, c.Showable := fun c hc =>
      Analysis.instr_showable hj c (j.parts_subset_of_mem_parts b hb hc)
    have hlines := congrArg String.toList h
    rw [a.toList_outline, b.toList_outline] at hlines
    obtain ⟨hlevel, hheadings⟩ := Text.Outline.render_inj (a.legible_headings hshow)
      (b.legible_headings hshow') hlines
    exact ⟨hlevel, a.bare_eq_of_headings b hshow hshow' hheadings⟩

/-- An element that holds a single quote. -/
def quoteTree (e : Markup.Extent) : Node := .mk "string" [("value", "'")] [] e

/-- The instruction of that element. -/
def quoteInstr (span : Span) : Instr := .mk .text (some "'") [] [] [] (some span)

/-- Two sources that quote the same text differently have the same outlines. -/
theorem outline_determines_quotes :
    ∃ e e' : Markup.Extent,
      parse .document "f" "<string value=\"'\"/>" = .ok (quoteTree e) ∧
      parse .fragment "g" "<string value='&apos;'></string>" = .ok (quoteTree e') ∧
      (quoteTree e).outline 0 = (quoteTree e').outline 0 ∧
      (quoteTree e).bare = (quoteTree e').bare ∧
      (Analysis.instr (quoteTree e)).outcome = .ok (quoteInstr e.span) ∧
      (Analysis.instr (quoteTree e')).outcome = .ok (quoteInstr e'.span) ∧
      (quoteInstr e.span).outline 0 = (quoteInstr e'.span).outline 0 ∧
      (quoteInstr e.span).bare = (quoteInstr e'.span).bare := by
  have hroot : parse .document "f" "<string value=\"'\"/>"
      = .ok (quoteTree ⟨⟨"f", 1, 1, 1, 20⟩, true⟩) := by rfl
  have hroot' : parse .fragment "g" "<string value='&apos;'></string>"
      = .ok (quoteTree ⟨⟨"g", 1, 1, 1, 33⟩, false⟩) := by rfl
  have hinstr : ∀ e, (Analysis.instr (quoteTree e)).outcome = .ok (quoteInstr e.span) := by
    intro e
    rfl
  have htree : ∀ e e', (quoteTree e).outline 0 = (quoteTree e').outline 0 := by
    intro e e'
    simp only [quoteTree, Node.outline]
  have hshown : ∀ s s', (quoteInstr s).outline 0 = (quoteInstr s').outline 0 := by
    intro s s'
    simp only [quoteInstr, Instr.outline]
  exact ⟨_, _, hroot, hroot', htree _ _,
    (outline_determines.1 hroot hroot' (Node.self_mem_postorder _) (Node.self_mem_postorder _)
      (htree _ _)).2,
    hinstr _, hinstr _, hshown _ _,
    (outline_determines.2 (hinstr _) (hinstr _) (Instr.self_mem_parts _) (Instr.self_mem_parts _)
      (hshown _ _)).2⟩

end TagScript
