import TagScript.Proofs.Markup.Grammar
import TagScript.Proofs.Shape.Analysis

set_option autoImplicit false

/-! # Where instructions come from

Every instruction of an analysed program has the span of an element of its tree
(`Analysis.program_spans`), and every element of a tree that was read stands in the text at its span
(`Markup.Derives.stands`). -/

namespace TagScript

open Markup (Node)

/-! ## Elements of a text -/

namespace Markup

/-- The node is an element of the text: the grammar derives it from a piece of the text. -/
def Stands (file : String) (text : List Char) (n : Node) : Prop :=
  ∃ before s after, text = before ++ s ++ after ∧ Element file before s n

variable {file : String}

mutual

theorem Element.stands : ∀ {before s : List Char} {n : Node}, Element file before s n →
    ∀ after, ∀ m ∈ n.postorder, Stands file (before ++ s ++ after) m
  | _, _, _, .empty hopening, after, m, hm => by
      rw [List.mem_singleton.1 hm]
      exact ⟨_, _, after, rfl, .empty hopening⟩
  | before, _, _,
    @Element.full _ _ opening _ inner closing gap _ _ hopening hinner hname hsame hgap,
    after, m, hm => by
      rcases List.mem_append.1 hm with hm | hm
      · have hin := Contents.stands hinner (['<', '/'] ++ closing ++ gap ++ ['>'] ++ after) m hm
        simpa only [List.append_assoc] using hin
      · rw [List.mem_singleton.1 hm]
        exact ⟨_, _, after, rfl, .full hopening hinner hname hsame hgap⟩

theorem Contents.stands : ∀ {before s : List Char} {ns : List Node}, Contents file before s ns →
    ∀ after, ∀ m ∈ Node.postorderAll ns, Stands file (before ++ s ++ after) m
  | _, _, _, .nil, _, _, hm => by cases hm
  | _, _, _, .comment _ hrest, after, m, hm => by
      simpa only [List.append_assoc] using Contents.stands hrest after m hm
  | _, _, _, @Contents.element _ _ _ rest _ _ hs hrest, after, m, hm => by
      rcases List.mem_append.1 hm with hm | hm
      · simpa only [List.append_assoc] using Element.stands hs (rest ++ after) m hm
      · simpa only [List.append_assoc] using Contents.stands hrest after m hm
  | _, _, _, .text _ _ hrest, after, m, hm => by
      simpa only [List.append_assoc] using Contents.stands hrest after m hm

end

/-- Every element of the tree of a text stands in the text. -/
theorem Derives.stands {mode : Mode} {text : List Char} {root : Node}
    (h : Derives mode file text root) : ∀ n ∈ root.postorder, Stands file text n := by
  obtain ⟨_, hs, _⟩ := h
  exact hs.stands _

end Markup

/-! ## Instructions of an element -/

namespace Analysis

theorem instrOfDepth_spans {depth : Nat} {n : Node} {i : Instr}
    (h : (instrOfDepth depth n).outcome = .ok i) :
    ∀ j ∈ i.parts, ∃ m ∈ n.postorder, j.span = some m.span := by
  induction depth generalizing n i with
  | zero => cases h
  | succ depth ih =>
      obtain ⟨_, _, h⟩ := bind_ok h
      obtain ⟨shape, hshape, h⟩ := bind_ok h
      obtain ⟨_, hspan, hchildren⟩ := shaped_ok (Shape.fits_of_ofTag? (require_ok hshape)) h
      refine Instr.forall_parts ⟨n, n.self_mem_postorder, hspan⟩ fun j hj k hk => ?_
      obtain ⟨c, hc, hjc⟩ := hchildren j hj
      obtain ⟨m, hm, hkm⟩ := ih hjc k hk
      exact ⟨m, n.postorder_subset hc hm, hkm⟩

theorem each_instr_spans {n : Node} {is : List Instr}
    (h : (each instr n.children).outcome = .ok is) :
    ∀ i ∈ Instr.partsAll is, ∃ m ∈ n.postorder, i.span = some m.span := by
  intro i hi
  obtain ⟨j, hj, hi⟩ := Instr.exists_mem_of_mem_partsAll hi
  obtain ⟨c, hc, hcj⟩ := (each_ok h).2 j hj
  obtain ⟨m, hm, hspan⟩ := instrOfDepth_spans hcj i hi
  have hmem := Node.mem_postorder_of_child n.self_mem_postorder hc
  exact ⟨m, n.postorder_subset hmem hm, hspan⟩

theorem functionDef_spans {n : Node} {f : FunctionDef} (h : (functionDef n).outcome = .ok f) :
    ∀ i ∈ Instr.partsAll f.body, ∃ m ∈ n.postorder, i.span = some m.span := by
  obtain ⟨name, _, h⟩ := bind_ok h
  obtain ⟨arguments, _, h⟩ := bind_ok h
  obtain ⟨params, _, h⟩ := bind_ok h
  obtain ⟨body, hbody, h⟩ := bind_ok h
  cases h
  obtain ⟨w, hw, hbody⟩ := bind_ok hbody
  intro i hi
  obtain ⟨m, hm, hspan⟩ := each_instr_spans hbody i hi
  exact ⟨m, n.postorder_subset (wrapper_mem hw) hm, hspan⟩

/-- The main element is the one found before, or among the elements. -/
theorem topLevel_main {main? : Option Node} {ns : List Node}
    {r : List FunctionDef × Option Node} (h : (topLevel main? ns).outcome = .ok r) {main : Node}
    (hmain : r.2 = some main) : main? = some main ∨ main ∈ ns := by
  induction ns generalizing main? r with
  | nil =>
      cases h
      exact .inl hmain
  | cons n rest ih =>
      unfold topLevel at h
      split at h
      · obtain ⟨f, hf, h⟩ := bind_ok h
        obtain ⟨r', hr', h⟩ := bind_ok h
        cases h
        rcases ih hr' hmain with hfound | hmem
        · exact .inl hfound
        · exact .inr (List.mem_cons_of_mem n hmem)
      · split at h
        · split at h
          · cases h
          · rcases ih h hmain with hfound | hmem
            · cases hfound
              exact .inr List.mem_cons_self
            · exact .inr (List.mem_cons_of_mem n hmem)
        · cases h

/-- Every instruction of the program of a document has the span of an element of the document. -/
theorem program_spans {root : Node} {p : Program} (h : (program root).outcome = .ok p) :
    ∀ i ∈ p.instructions, ∃ m ∈ root.postorder, i.span = some m.span := by
  obtain ⟨⟨functions, main?⟩, htop, h⟩ := bind_ok h
  obtain ⟨main, hmain, h⟩ := bind_ok h
  obtain ⟨statements, hstatements, h⟩ := bind_ok h
  cases h
  have hchild : ∀ {n : Node}, n ∈ root.children → n ∈ root.postorder :=
    Node.mem_postorder_of_child root.self_mem_postorder
  intro i hi
  rcases List.mem_append.1 hi with hi | hi
  · obtain ⟨m, hm, hspan⟩ := each_instr_spans hstatements i hi
    rcases topLevel_main htop (require_ok hmain) with hnone | hmem
    · cases hnone
    · exact ⟨m, root.postorder_subset (hchild hmem) hm, hspan⟩
  · obtain ⟨f, hf, hi⟩ := List.mem_flatMap.1 hi
    obtain ⟨n, hn, hnf⟩ := topLevel_functions htop f hf
    obtain ⟨m, hm, hspan⟩ := functionDef_spans hnf i hi
    exact ⟨m, root.postorder_subset (hchild hn) hm, hspan⟩

end Analysis

end TagScript
