import TagScript.Program.Analysis

set_option autoImplicit false

/-! # Valid programs

Which trees are programs, said of trees and without an analysis. An element with a given tag must
have certain attributes and children, and some of its children are used as instructions
(`Node.IsInstruction`); which ones depends on their position or on their tags. All other children
may be anything. A program has functions and one main element (`Node.IsProgram`). -/

namespace TagScript

open Markup (Node)

namespace Markup.Node

/-! ## The children that are looked at -/

/-- The element has an attribute of the name. -/
def HasAttribute (n : Node) (name : String) : Prop := name ∈ n.attributes.map Prod.fst

/-- The first child of the element. -/
def FirstChild (n c : Node) : Prop := ∃ after, n.children = c :: after

/-- The first child of the element that has the tag. -/
def FirstWith (n : Node) (tag : String) (c : Node) : Prop :=
  ∃ before after, n.children = before ++ c :: after ∧ c.tag = tag ∧ ∀ b ∈ before, b.tag ≠ tag

/-- The first child of the element that has none of the tags. -/
def FirstOther (n : Node) (tags : List String) (c : Node) : Prop :=
  ∃ before after, n.children = before ++ c :: after ∧ c.tag ∉ tags ∧ ∀ b ∈ before, b.tag ∈ tags

/-- The first element inside the first child that has the tag. -/
def FirstInside (n : Node) (tag : String) (c : Node) : Prop :=
  ∃ w, n.FirstWith tag w ∧ w.FirstChild c

/-! ## The table of shapes -/

/-- A valid instruction: an element that has what its tag asks for, the elements that it uses being
    valid instructions in turn. All its other children may be anything. -/
inductive IsInstruction : Node → Prop where
  | value {n : Node} : n.tag = "value" → n.HasAttribute "variable" → n.IsInstruction
  | assign {n c : Node} : n.tag = "assign" → n.HasAttribute "variable" → n.FirstChild c →
      c.IsInstruction → n.IsInstruction
  | literal {n : Node} : n.tag ∈ ["integer", "float", "string"] → n.HasAttribute "value" →
      n.IsInstruction
  | cast {n c : Node} : n.tag ∈ ["integer", "float", "string"] → ¬ n.HasAttribute "value" →
      n.FirstChild c → c.IsInstruction → n.IsInstruction
  | nary {n : Node} : n.tag ∈ ["array", "add", "multiply", "and", "or"] →
      (∀ c ∈ n.children, c.IsInstruction) → n.IsInstruction
  | naryOnSome {n : Node} : n.tag ∈ ["subtract", "divide"] → n.children ≠ [] →
      (∀ c ∈ n.children, c.IsInstruction) → n.IsInstruction
  | comparison {n : Node} : n.tag ∈ ["equal", "greater", "lower"] → n.children.length = 2 →
      (∀ c ∈ n.children, c.IsInstruction) → n.IsInstruction
  | unary {n c : Node} : n.tag ∈ ["not", "return"] → n.FirstChild c → c.IsInstruction →
      n.IsInstruction
  | callByName {n arguments : Node} : n.tag = "call" → n.HasAttribute "function" →
      n.FirstWith "arguments" arguments → (∀ c ∈ arguments.children, c.IsInstruction) →
      n.IsInstruction
  | callByValue {n c arguments : Node} : n.tag = "call" → ¬ n.HasAttribute "function" →
      n.FirstWith "arguments" arguments → (∀ c ∈ arguments.children, c.IsInstruction) →
      n.FirstOther ["arguments"] c → c.IsInstruction → n.IsInstruction
  | ifThen {n c thenBlock : Node} : n.tag = "if" → n.FirstOther ["then", "else"] c →
      c.IsInstruction → n.FirstWith "then" thenBlock →
      (∀ c ∈ thenBlock.children, c.IsInstruction) → (∀ m ∈ n.children, m.tag ≠ "else") →
      n.IsInstruction
  | ifElse {n c thenBlock elseBlock : Node} : n.tag = "if" → n.FirstOther ["then", "else"] c →
      c.IsInstruction → n.FirstWith "then" thenBlock →
      (∀ c ∈ thenBlock.children, c.IsInstruction) → n.FirstWith "else" elseBlock →
      (∀ c ∈ elseBlock.children, c.IsInstruction) → n.IsInstruction
  | countLoop {n first last step body : Node} : n.tag = "for" → n.HasAttribute "variable" →
      n.FirstInside "from" first → first.IsInstruction → n.FirstInside "to" last →
      last.IsInstruction → n.FirstInside "step" step → step.IsInstruction →
      n.FirstWith "do" body → (∀ c ∈ body.children, c.IsInstruction) → n.IsInstruction
  | eachLoop {n array body : Node} : n.tag = "each" → n.HasAttribute "variable" →
      n.FirstOther ["do"] array → array.IsInstruction → n.FirstWith "do" body →
      (∀ c ∈ body.children, c.IsInstruction) → n.IsInstruction
  | whileLoop {n test body : Node} : n.tag = "while" → n.FirstOther ["do"] test →
      test.IsInstruction → n.FirstWith "do" body → (∀ c ∈ body.children, c.IsInstruction) →
      n.IsInstruction
  | assignArray {n array index v : Node} : n.tag = "assign-array" →
      n.FirstInside "array" array → array.IsInstruction → n.FirstInside "index" index →
      index.IsInstruction → n.FirstInside "value" v → v.IsInstruction → n.IsInstruction
  | insertArray {n array v : Node} : n.tag = "insert-array" → n.FirstInside "array" array →
      array.IsInstruction → n.FirstInside "value" v → v.IsInstruction → n.IsInstruction

/-- A valid function: a name, named parameters and a body of valid instructions. -/
structure IsFunction (n : Node) : Prop where
  named : n.HasAttribute "name"
  arguments : ∃ w, n.FirstWith "arguments" w ∧ ∀ a ∈ w.children, a.HasAttribute "name"
  body : ∃ w, n.FirstWith "body" w ∧ ∀ c ∈ w.children, c.IsInstruction

/-- A valid program: functions and exactly one main element, all of them valid. -/
structure IsProgram (root : Node) : Prop where
  known : ∀ n ∈ root.children, n.tag = "function" ∨ n.tag = "main"
  oneMain : (root.children.filter (·.tag = "main")).length = 1
  functions : ∀ n ∈ root.children, n.tag = "function" → n.IsFunction
  main : ∀ n ∈ root.children, n.tag = "main" → ∀ c ∈ n.children, c.IsInstruction

/-! ## Looking for attributes and children -/

variable {n c : Node} {name tag : String}

theorem hasAttribute_iff : n.HasAttribute name ↔ ∃ v, n.attribute? name = some v := by
  rw [← Option.isSome_iff_exists, attribute?, List.lookup_isSome_iff]
  simp [HasAttribute]

theorem attribute?_eq_none : n.attribute? name = none ↔ ¬ n.HasAttribute name := by
  rw [hasAttribute_iff, Option.eq_none_iff_forall_ne_some]
  exact ⟨fun h ⟨v, hv⟩ => h v hv, fun h v hv => h ⟨v, hv⟩⟩

theorem head?_eq_some : n.children.head? = some c ↔ n.FirstChild c := List.head?_eq_some_iff

theorem child?_eq_some : n.child? tag = some c ↔ n.FirstWith tag c := by
  simp only [child?, List.find?_eq_some_iff_append, FirstWith, beq_iff_eq, Bool.not_eq_true',
    beq_eq_false_iff_ne]
  constructor
  · rintro ⟨htag, before, after, hsplit, hbefore⟩
    exact ⟨before, after, hsplit, htag, hbefore⟩
  · rintro ⟨before, after, hsplit, htag, hbefore⟩
    exact ⟨htag, before, after, hsplit, hbefore⟩

theorem child?_eq_none : n.child? tag = none ↔ ∀ m ∈ n.children, m.tag ≠ tag := by
  simp [child?]

theorem find?_other_eq_some {tags : List String} :
    (n.children.find? fun m => !tags.contains m.tag) = some c ↔ n.FirstOther tags c := by
  simp only [List.find?_eq_some_iff_append, FirstOther, Bool.not_eq_true', Bool.not_eq_false',
    List.contains_eq_mem, decide_eq_false_iff_not, decide_eq_true_eq]
  constructor
  · rintro ⟨htag, before, after, hsplit, hbefore⟩
    exact ⟨before, after, hsplit, htag, hbefore⟩
  · rintro ⟨before, after, hsplit, htag, hbefore⟩
    exact ⟨htag, before, after, hsplit, hbefore⟩

theorem firstOther_nil : n.FirstOther [] c ↔ n.FirstChild c := by
  rw [← find?_other_eq_some, ← head?_eq_some]
  cases n.children <;> simp

/-! ## Depths -/

theorem FirstChild.mem (h : n.FirstChild c) : c ∈ n.children := by
  obtain ⟨after, hsplit⟩ := h
  simp [hsplit]

theorem FirstWith.mem (h : n.FirstWith tag c) : c ∈ n.children := by
  obtain ⟨before, after, hsplit, _⟩ := h
  simp [hsplit]

theorem FirstOther.mem {tags : List String} (h : n.FirstOther tags c) : c ∈ n.children := by
  obtain ⟨before, after, hsplit, _⟩ := h
  simp [hsplit]

theorem depth_le_depthAll {ns : List Node} (h : c ∈ ns) : c.depth ≤ depthAll ns := by
  induction h with
  | head rest => exact Nat.le_max_left _ _
  | tail m _ ih => exact Nat.le_trans ih (Nat.le_max_right _ _)

theorem depth_lt_of_mem (h : c ∈ n.children) : c.depth < n.depth := by
  obtain ⟨t, as, cs, e⟩ := n
  exact Nat.lt_succ_of_le (depth_le_depthAll h)

theorem FirstChild.depth_lt (h : n.FirstChild c) : c.depth < n.depth := depth_lt_of_mem h.mem

theorem FirstOther.depth_lt {tags : List String} (h : n.FirstOther tags c) : c.depth < n.depth :=
  depth_lt_of_mem h.mem

theorem FirstWith.depth_lt {w : Node} (h : n.FirstWith tag w) (hc : c ∈ w.children) :
    c.depth < n.depth :=
  Nat.lt_trans (depth_lt_of_mem hc) (depth_lt_of_mem h.mem)

theorem FirstInside.depth_lt (h : n.FirstInside tag c) : c.depth < n.depth := by
  obtain ⟨w, hw, hc⟩ := h
  exact hw.depth_lt hc.mem

end Markup.Node

end TagScript
