import TagScript.Program.Analysis

set_option autoImplicit false

/-! # Trees without their places

Two trees are the same up to where and how their elements are written if they become equal once all
extents are replaced by one and the same. -/

namespace TagScript

/-- One place for everything, so that places do not count. -/
def Span.nowhere : Span := ⟨"", 0, 0, 0, 0⟩

namespace Markup.Node

mutual

/-- The tree with all its extents forgotten. -/
def bare : Node → Node
  | mk t as cs _ => mk t as (bareAll cs) ⟨Span.nowhere, false⟩

/-- The trees with all their extents forgotten. -/
def bareAll : List Node → List Node
  | [] => []
  | n :: rest => bare n :: bareAll rest

end

theorem bareAll_eq_map (ns : List Node) : bareAll ns = ns.map bare := by
  induction ns with
  | nil => rfl
  | cons n rest ih => simp only [bareAll, ih, List.map_cons]

/-! ## What can be seen of a bare tree -/

@[simp] theorem tag_bare (n : Node) : n.bare.tag = n.tag := by
  obtain ⟨t, as, cs, e⟩ := n
  rfl

@[simp] theorem attributes_bare (n : Node) : n.bare.attributes = n.attributes := by
  obtain ⟨t, as, cs, e⟩ := n
  rfl

@[simp] theorem children_bare (n : Node) : n.bare.children = n.children.map bare := by
  obtain ⟨t, as, cs, e⟩ := n
  exact bareAll_eq_map cs

@[simp] theorem span_bare (n : Node) : n.bare.span = Span.nowhere := by
  obtain ⟨t, as, cs, e⟩ := n
  rfl

@[simp] theorem attribute?_bare (n : Node) (name : String) :
    n.bare.attribute? name = n.attribute? name := by
  simp only [attribute?, attributes_bare]

theorem find?_map_bare (p : String → Bool) (ns : List Node) :
    (ns.map bare).find? (fun c => p c.tag) = (ns.find? fun c => p c.tag).map bare := by
  simp only [List.find?_map, Function.comp_def, tag_bare]

@[simp] theorem child?_bare (n : Node) (tag : String) :
    n.bare.child? tag = (n.child? tag).map bare := by
  simp only [child?, children_bare]
  exact find?_map_bare (· == tag) n.children

mutual

@[simp] theorem depth_bare : (n : Node) → n.bare.depth = n.depth
  | .mk t as cs e => by simp only [bare, depth, depthAll_bareAll cs]

theorem depthAll_bareAll : (ns : List Node) → depthAll (bareAll ns) = depthAll ns
  | [] => rfl
  | n :: rest => by simp only [bareAll, depthAll, depth_bare n, depthAll_bareAll rest]

end

end Markup.Node

end TagScript
