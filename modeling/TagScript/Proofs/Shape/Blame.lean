import TagScript.Proofs.Shape.Acceptance

set_option autoImplicit false

/-! # The element that is blamed

An analysis that fails gives the span of an element inside the one that it is about. Every way of
putting analyses together keeps this, and so does the analysis of each shape. With the trees that
are accepted this settles the analysis of every tree (`Analysis.program_accepted`). -/

namespace TagScript

open Markup (Node)

namespace Analysis

variable {α β : Type}

/-! ## The element that is blamed -/

/-- An analysis that fails gives the span of an element inside the element. -/
def BlamesInside (n : Node) (a : Analysis α) : Prop :=
  ∀ e, a.outcome = .error e → ∃ m ∈ n.postorder, e.span = some m.span

namespace BlamesInside

variable {n m : Node}

theorem pure (r : α) : BlamesInside n (Pure.pure r) := fun e h => by cases h

theorem refuse (hm : m ∈ n.postorder) (fault : StructureFault) :
    BlamesInside n (Analysis.refuse m fault : Analysis α) := by
  rintro e ⟨⟩
  exact ⟨m, hm, rfl⟩

theorem require (hm : m ∈ n.postorder) (fault : StructureFault) (x : Option α) :
    BlamesInside n (Analysis.require m fault x) := by
  cases x with
  | none => exact refuse hm fault
  | some a => exact pure a

theorem bind {x : Analysis α} {f : α → Analysis β} (hx : BlamesInside n x)
    (hf : ∀ a, x.outcome = .ok a → BlamesInside n (f a)) : BlamesInside n (x >>= f) := by
  intro e h
  rw [outcome_bind] at h
  cases hok : x.outcome with
  | error k =>
      rw [hok] at h
      cases h
      exact hx _ hok
  | ok a =>
      rw [hok] at h
      exact hf a hok e h

theorem each {f : α → Analysis β} {as : List α} (hf : ∀ a ∈ as, BlamesInside n (f a)) :
    BlamesInside n (Analysis.each f as) := by
  induction as with
  | nil => exact pure []
  | cons a rest ih =>
      refine bind (hf a List.mem_cons_self) fun b _ e h => ?_
      exact ih (fun c hc => hf c (List.mem_cons_of_mem a hc)) e (except_map_error h)

end BlamesInside

section Blame

variable {analyse : Node → Analysis Instr} {n : Node}
  (hanalyse : ∀ m ∈ n.postorder, BlamesInside n (analyse m))
include hanalyse

theorem wrapped_blames {tag : String} : BlamesInside n (wrapped analyse n tag) := by
  have hself := n.self_mem_postorder
  refine .bind (.require hself _ _) fun w hw => .bind (.require hself _ _) fun c hc => ?_
  have hin := List.mem_of_head? (require_ok hc)
  exact hanalyse c (Node.mem_postorder_of_child (wrapper_mem hw) hin)

theorem block_blames {tag : String} : BlamesInside n (block analyse n tag) := by
  refine .bind (.require n.self_mem_postorder _ _) fun w hw => .each fun c hc => ?_
  exact hanalyse c (Node.mem_postorder_of_child (wrapper_mem hw) hc)

/-- The analysis of an element of a shape blames an element inside if that of its parts does. -/
theorem shaped_blames {shape : Shape} : BlamesInside n (shaped analyse n shape) := by
  have hself := n.self_mem_postorder
  have hoperand : ∀ {what skip}, BlamesInside n (operand n what skip) := .require hself _ _
  have hchild : ∀ {what skip m}, (operand n what skip).outcome = .ok m →
      BlamesInside n (analyse m) :=
    fun h => hanalyse _ (Node.mem_postorder_of_child hself (operand_mem h))
  have hall : BlamesInside n (Analysis.each analyse n.children) :=
    .each fun c hc => hanalyse c (Node.mem_postorder_of_child hself hc)
  cases shape with
  | reference => exact .bind (.require hself _ _) fun _ _ => .pure _
  | literal kind cast =>
      simp only [shaped]
      split
      · exact .pure _
      · refine .bind (.require hself _ _) fun c hc => .bind ?_ fun _ _ => .pure _
        exact hanalyse c (Node.mem_postorder_of_child hself (List.mem_of_head? (require_ok hc)))
  | nary kind needsOperand =>
      refine .bind hall fun operands _ => ?_
      split
      · exact .refuse hself _
      · exact .pure _
  | comparison kind =>
      simp only [shaped]
      split
      · exact .bind hall fun _ _ => .pure _
      · exact .refuse hself _
  | unary kind => exact .bind hoperand fun c hc => .bind (hchild hc) fun _ _ => .pure _
  | assign =>
      exact .bind (.require hself _ _) fun _ _ => .bind hoperand fun c hc =>
        .bind (hchild hc) fun _ _ => .pure _
  | call =>
      refine .bind (block_blames hanalyse) fun args _ => ?_
      split
      · exact .pure _
      · exact .bind hoperand fun c hc => .bind (hchild hc) fun _ _ => .pure _
  | condition =>
      refine .bind hoperand fun c hc => .bind (hchild hc) fun test _ =>
        .bind (block_blames hanalyse) fun thenBlock _ => ?_
      split
      · exact .pure _
      · rename_i other hother
        refine .bind (.each fun c hc => ?_) fun _ _ => .pure _
        have hin := Node.mem_postorder_of_child hself (List.mem_of_find?_eq_some hother)
        exact hanalyse c (Node.mem_postorder_of_child hin hc)
  | countLoop =>
      exact .bind (.require hself _ _) fun _ _ => .bind (.each fun _ _ => wrapped_blames hanalyse)
        fun _ _ => .bind (block_blames hanalyse) fun _ _ => .pure _
  | eachLoop =>
      exact .bind (.require hself _ _) fun _ _ => .bind hoperand fun c hc => .bind (hchild hc)
        fun _ _ => .bind (block_blames hanalyse) fun _ _ => .pure _
  | whileLoop =>
      exact .bind hoperand fun c hc => .bind (hchild hc)
        fun _ _ => .bind (block_blames hanalyse) fun _ _ => .pure _
  | store kind parts =>
      exact .bind (.each fun _ _ => wrapped_blames hanalyse) fun _ _ => .pure _

end Blame

theorem BlamesInside.of_mem {n m : Node} {a : Analysis α} (h : BlamesInside m a)
    (hm : m ∈ n.postorder) : BlamesInside n a := by
  intro e he
  obtain ⟨k, hk, hspan⟩ := h e he
  exact ⟨k, n.postorder_subset hm hk, hspan⟩

theorem instrOfDepth_blames (depth : Nat) (n : Node) : BlamesInside n (instrOfDepth depth n) := by
  induction depth generalizing n with
  | zero => exact .refuse n.self_mem_postorder _
  | succ depth ih =>
      refine .bind (fun e h => by cases h) fun _ _ =>
        .bind (.require n.self_mem_postorder _ _) fun shape _ => ?_
      exact shaped_blames fun m hm => (ih m).of_mem hm

theorem instr_blames (n : Node) : BlamesInside n (instr n) := instrOfDepth_blames n.depth n

theorem functionDef_blames (n : Node) : BlamesInside n (functionDef n) := by
  have hself := n.self_mem_postorder
  refine .bind (.require hself _ _) fun _ _ => .bind (.require hself _ _) fun w hw =>
    .bind (.each fun a ha => ?_) fun _ _ =>
    .bind (block_blames fun m hm => (instr_blames m).of_mem hm) fun _ _ => .pure _
  exact .require (Node.mem_postorder_of_child (wrapper_mem hw) ha) _ _

theorem topLevel_blames {root : Node} {main? : Option Node} {ns : List Node}
    (hns : ∀ n ∈ ns, n ∈ root.postorder) : BlamesInside root (topLevel main? ns) := by
  induction ns generalizing main? with
  | nil => exact .pure _
  | cons n rest ih =>
      have hrest : ∀ main?, BlamesInside root (topLevel main? rest) := fun _ =>
        ih fun m hm => hns m (List.mem_cons_of_mem n hm)
      have hn := hns n List.mem_cons_self
      unfold topLevel
      split
      · exact .bind ((functionDef_blames n).of_mem hn) fun f _ => .bind (hrest _) fun _ _ => .pure _
      · split
        · split
          · exact .refuse hn _
          · exact hrest _
        · exact .refuse hn _

/-- The analysis of a tree that fails blames an element of the tree. -/
theorem program_blames (root : Node) : BlamesInside root (program root) := by
  have hself := root.self_mem_postorder
  refine .bind (topLevel_blames fun n hn => Node.mem_postorder_of_child hself hn) fun r hr =>
    .bind (.require hself _ _) fun main hmain => .bind (.each fun c hc => ?_) fun _ _ => .pure _
  obtain ⟨functions, main?⟩ := r
  cases require_ok hmain
  obtain ⟨_, hone⟩ := topLevel_eq_ok.1 ⟨functions, hr⟩
  have hmem : main ∈ root.children.filter (·.tag = "main") := by
    rw [Option.toList_none, List.nil_append] at hone
    rw [hone]
    exact List.mem_cons_self
  have hin := Node.mem_postorder_of_child hself (List.mem_filter.1 hmem).1
  exact (instr_blames c).of_mem (Node.mem_postorder_of_child hin hc)

/-- A tree is analysed as a program if and only if it is a valid program, and otherwise the analysis
    ends in an error that gives the span of an element of the tree. -/
theorem program_accepted (root : Node) :
    ((∃ p, (program root).outcome = .ok p) ↔ root.IsProgram) ∧
      ((∃ e, (program root).outcome = .error e ∧ ∃ n ∈ root.postorder, e.span = some n.span) ↔
        ¬ root.IsProgram) := by
  have haccepts : (∃ p, (program root).outcome = .ok p) ↔ root.IsProgram := program_accepts_iff
  refine ⟨haccepts, ?_⟩
  rw [← haccepts]
  cases h : (program root).outcome with
  | ok p => simp
  | error e =>
      refine iff_of_true ⟨e, rfl, program_blames root e h⟩ ?_
      rintro ⟨p, ⟨⟩⟩

/-- Stray and repeated children are passed over, even where they are no instructions. -/
example (e : Markup.Extent) :
    (program (.mk "program" []
      [.mk "main" []
        [.mk "while" []
          [.mk "do" [] [] e, .mk "array" [] [] e, .mk "stray" [] [] e,
            .mk "do" [] [.mk "stray" [] [] e] e] e] e] e)).Accepts :=
  ⟨_, rfl⟩

end Analysis

end TagScript
