import TagScript.Eval.Frame

set_option autoImplicit false

/-! # The instructions inside an instruction

All instructions at any depth: operands, bodies and else branches, and what is in them. -/

namespace TagScript

namespace Instr

/-- The instructions right inside an instruction. -/
def children (i : Instr) : List Instr := i.operands ++ i.body ++ i.orelse

mutual

/-- An instruction and all instructions inside it. -/
def parts : Instr → List Instr
  | mk k v os b o s => mk k v os b o s :: (partsAll os ++ partsAll b ++ partsAll o)

/-- The instructions of a list and all instructions inside them. -/
def partsAll : List Instr → List Instr
  | [] => []
  | i :: rest => parts i ++ partsAll rest

end

theorem partsAll_append (is js : List Instr) :
    partsAll (is ++ js) = partsAll is ++ partsAll js := by
  induction is with
  | nil => rfl
  | cons i rest ih => simp only [List.cons_append, partsAll, ih, List.append_assoc]

theorem parts_eq (i : Instr) : i.parts = i :: partsAll i.children := by
  obtain ⟨k, v, os, b, o, s⟩ := i
  simp only [children, partsAll_append]
  rfl

theorem self_mem_parts (i : Instr) : i ∈ i.parts := by
  rw [parts_eq]
  exact List.mem_cons_self

theorem parts_sublist_partsAll {i : Instr} {is : List Instr} (h : i ∈ is) :
    i.parts.Sublist (partsAll is) := by
  induction h with
  | head rest => exact List.sublist_append_left _ _
  | tail j _ ih => exact ih.trans (List.sublist_append_right _ _)

theorem exists_mem_of_mem_partsAll {j : Instr} {is : List Instr} (h : j ∈ partsAll is) :
    ∃ i ∈ is, j ∈ i.parts := by
  induction is with
  | nil => cases h
  | cons i rest ih =>
      rcases List.mem_append.1 h with h | h
      · exact ⟨i, List.mem_cons_self, h⟩
      · obtain ⟨k, hk, hj⟩ := ih h
        exact ⟨k, List.mem_cons_of_mem i hk, hj⟩

/-- What is inside a part of an instruction is inside the instruction. -/
theorem parts_subset_of_mem {i j : Instr} (h : j ∈ i.children) : j.parts ⊆ i.parts := by
  rw [parts_eq i]
  exact fun _ hk => List.mem_cons_of_mem _ ((parts_sublist_partsAll h).subset hk)

/-- What holds for an instruction and for all parts of its children holds for all its parts. -/
theorem forall_parts {P : Instr → Prop} {i : Instr} (h : P i)
    (hchildren : ∀ j ∈ i.children, ∀ k ∈ j.parts, P k) : ∀ j ∈ i.parts, P j := by
  rw [parts_eq]
  intro j hj
  rcases List.mem_cons.1 hj with rfl | hj
  · exact h
  · obtain ⟨c, hc, hj⟩ := exists_mem_of_mem_partsAll hj
    exact hchildren c hc j hj

/-- A part of an instruction has fewer instructions inside it. -/
theorem length_parts_lt {i j : Instr} (h : j ∈ i.children) :
    j.parts.length < i.parts.length := by
  rw [parts_eq i, List.length_cons]
  exact Nat.lt_succ_of_le (parts_sublist_partsAll h).length_le

theorem mem_children_of_operands {i j : Instr} (h : j ∈ i.operands) : j ∈ i.children :=
  List.mem_append_left _ (List.mem_append_left _ h)

theorem mem_children_of_body {i j : Instr} (h : j ∈ i.body) : j ∈ i.children :=
  List.mem_append_left _ (List.mem_append_right _ h)

theorem mem_children_of_orelse {i j : Instr} (h : j ∈ i.orelse) : j ∈ i.children :=
  List.mem_append_right _ h

/-- The instruction is a loop over a range or a list, and this is its variable. -/
def Loops (i : Instr) (name : Name) : Prop :=
  (i.kind = .countLoop ∨ i.kind = .eachLoop) ∧ i.value = name

end Instr

namespace Program

/-- All instructions of a program. -/
def instructions (p : Program) : List Instr :=
  Instr.partsAll p.main ++ p.functions.flatMap fun f => Instr.partsAll f.body

theorem main_sublist_instructions (p : Program) :
    (Instr.partsAll p.main).Sublist p.instructions :=
  List.sublist_append_left _ _

theorem body_sublist_instructions {p : Program} {f : FunctionDef} (h : f ∈ p.functions) :
    (Instr.partsAll f.body).Sublist p.instructions := by
  have hmem : Instr.partsAll f.body ∈ p.functions.map fun f => Instr.partsAll f.body :=
    List.mem_map.2 ⟨f, h, rfl⟩
  exact (List.sublist_flatten_of_mem hmem).trans (List.sublist_append_right _ _)

/-- The name is the variable of a loop over a range or a list in the main block. -/
def MainLoops (p : Program) (name : Name) : Prop :=
  ∃ i ∈ Instr.partsAll p.main, i.Loops name

/-- No instruction of the program is a loop on a condition. -/
def WhileFree (p : Program) : Prop := ∀ i ∈ p.instructions, i.kind ≠ .whileLoop

instance (p : Program) : Decidable p.WhileFree :=
  inferInstanceAs (Decidable (∀ i ∈ p.instructions, i.kind ≠ .whileLoop))

end Program

end TagScript
