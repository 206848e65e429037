import TagScript.Program.Analysis
import TagScript.Proofs.Eval.Parts
import TagScript.Proofs.Except

set_option autoImplicit false

/-! # The shape of analysed instructions

Evaluation takes an instruction apart by its kind: it reads the payload of some kinds and counts on
the number of operands of others. An instruction that has what its kind needs is *shaped*. The
analysis of an element gives shaped instructions only, at any depth (`Analysis.instr_shaped`,
`Analysis.program_shaped`): the shape of each tag fits the kind of its instructions, and what is
inside an instruction has been analysed in turn. -/

namespace TagScript

open Markup (Node)

/-! ## Elements inside an element -/

namespace Markup.Node

theorem self_mem_postorder (n : Node) : n ∈ n.postorder := by
  obtain ⟨t, as, cs, e⟩ := n
  exact List.mem_append_right _ List.mem_cons_self

theorem postorder_subset_postorderAll {n : Node} {ns : List Node} (h : n ∈ ns) :
    n.postorder ⊆ postorderAll ns := by
  induction h with
  | head rest => exact List.subset_append_left _ _
  | tail m _ ih => exact List.Subset.trans ih (List.subset_append_right _ _)

mutual

theorem postorder_subset : (n : Node) → ∀ {m : Node}, m ∈ n.postorder → m.postorder ⊆ n.postorder
  | .mk t as cs e, m, hm => by
    rcases List.mem_append.1 hm with hm | hm
    · exact List.Subset.trans (postorderAll_subset cs hm) (List.subset_append_left _ _)
    · rw [List.mem_singleton.1 hm]
      exact fun _ hk => hk

theorem postorderAll_subset :
    (ns : List Node) → ∀ {m : Node}, m ∈ postorderAll ns → m.postorder ⊆ postorderAll ns
  | [], _, hm => by cases hm
  | n :: rest, m, hm => by
    rcases List.mem_append.1 hm with hm | hm
    · exact List.Subset.trans (postorder_subset n hm) (List.subset_append_left _ _)
    · exact List.Subset.trans (postorderAll_subset rest hm) (List.subset_append_right _ _)

end

/-- A child of an element inside an element is inside it. -/
theorem mem_postorder_of_child {k m n : Node} (hm : m ∈ n.postorder) (hk : k ∈ m.children) :
    k ∈ n.postorder := by
  refine n.postorder_subset hm ?_
  obtain ⟨t, as, cs, e⟩ := m
  exact List.mem_append_left _ (postorder_subset_postorderAll hk k.self_mem_postorder)

end Markup.Node

/-! ## What a kind needs -/

/-- How many operands an instruction may have. -/
inductive Arity where
  | any
  | exactly (n : Nat)
  | atLeast (n : Nat)
  deriving DecidableEq, Repr

/-- The number of operands is allowed. -/
def Arity.Allows : Arity → Nat → Prop
  | .any, _ => True
  | .exactly n, count => count = n
  | .atLeast n, count => n ≤ count

instance : (a : Arity) → (count : Nat) → Decidable (a.Allows count)
  | .any, _ => inferInstanceAs (Decidable True)
  | .exactly n, count => inferInstanceAs (Decidable (count = n))
  | .atLeast n, count => inferInstanceAs (Decidable (n ≤ count))

namespace Kind

/-- The kind has a word of its own, so it is one that can be evaluated. -/
def Known (k : Kind) : Prop := k ∈ words.map Prod.fst

instance (k : Kind) : Decidable k.Known :=
  inferInstanceAs (Decidable (k ∈ words.map Prod.fst))

/-- Every kind is known but that of an unknown word. -/
theorem known_iff {k : Kind} : k.Known ↔ ∀ word, k ≠ .unknown word := by
  cases k with
  | unknown word => simp [Known, words]
  | _ =>
      refine ⟨fun _ _ heq => ?_, fun _ => by decide⟩
      cases heq

/-- The number of operands that evaluation counts on. -/
def arity : Kind → Arity
  | .assign | .integerCast | .realCast | .textCast | .not | .giveBack | .ifThen | .ifElse
  | .eachLoop | .whileLoop => .exactly 1
  | .equal | .greater | .lower | .arrayPush => .exactly 2
  | .countLoop | .arraySet => .exactly 3
  | .call | .subtract | .divide => .atLeast 1
  | _ => .any

/-- Whether evaluation reads the payload: the name of a variable or a function, or the text of a
    literal. -/
def needsPayload : Kind → Bool
  | .value | .assign | .integer | .real | .text | .callNamed | .countLoop | .eachLoop => true
  | _ => false

end Kind

/-- The instruction has what its kind needs. -/
structure Instr.Shaped (i : Instr) : Prop where
  known : i.kind.Known
  payload : i.kind.needsPayload = true → i.value.isSome = true
  operands : i.kind.arity.Allows i.operands.length

namespace Instr.Shaped

variable {k : Kind} {v : String} {os b o : List Instr} {span : Option Span}

theorem of_payload (hknown : k.Known) (hcount : k.arity.Allows os.length) :
    (Instr.mk k (some v) os b o span).Shaped :=
  ⟨hknown, fun _ => rfl, hcount⟩

theorem of_operands (hknown : k.Known) (hneeds : k.needsPayload = false)
    (hcount : k.arity.Allows os.length) : (Instr.mk k none os b o span).Shaped :=
  ⟨hknown, fun hp => absurd (hneeds.symm.trans hp) Bool.false_ne_true, hcount⟩

end Instr.Shaped

instance (i : Instr) : Decidable i.Shaped :=
  decidable_of_iff (i.kind.Known ∧ (i.kind.needsPayload = true → i.value.isSome = true) ∧
      i.kind.arity.Allows i.operands.length)
    ⟨fun h => ⟨h.1, h.2.1, h.2.2⟩, fun h => ⟨h.known, h.payload, h.operands⟩⟩

/-- All instructions of the program are shaped. -/
def Program.Shaped (p : Program) : Prop := ∀ i ∈ p.instructions, i.Shaped

instance (p : Program) : Decidable p.Shaped :=
  inferInstanceAs (Decidable (∀ i ∈ p.instructions, i.Shaped))

/-! ## The table of tags -/

/-- The kinds of a shape need what the shape provides. -/
def Shape.Fits : Shape → Prop
  | .literal kind cast =>
    (kind.Known ∧ kind.arity = .any) ∧
      (cast.Known ∧ cast.needsPayload = false ∧ cast.arity = .exactly 1)
  | .nary kind needsOperand =>
    kind.Known ∧ kind.needsPayload = false ∧
      kind.arity = if needsOperand then .atLeast 1 else .any
  | .comparison kind => kind.Known ∧ kind.needsPayload = false ∧ kind.arity = .exactly 2
  | .unary kind => kind.Known ∧ kind.needsPayload = false ∧ kind.arity = .exactly 1
  | .store kind parts =>
    kind.Known ∧ kind.needsPayload = false ∧ kind.arity = .exactly parts.length
  | _ => True

instance : (shape : Shape) → Decidable shape.Fits
  | .literal .. | .nary .. | .comparison .. | .unary .. | .store .. =>
    inferInstanceAs (Decidable (_ ∧ _))
  | .reference | .assign | .call | .condition | .countLoop | .eachLoop | .whileLoop =>
    inferInstanceAs (Decidable True)

/-- Every tag has a shape that fits its kinds. -/
theorem Shape.fits_of_ofTag? {tag : String} {shape : Shape} (h : ofTag? tag = some shape) :
    shape.Fits := by
  have htable : ∀ e ∈ tags, e.2.Fits := by decide
  obtain ⟨before, after, htags, _⟩ := List.lookup_eq_some_iff.1 h
  exact htable (tag, shape) (by rw [htags]; simp)

namespace Analysis

/-! ## What an analysis that succeeds has found -/

theorem require_ok {α : Type} {n : Node} {fault : StructureFault} {x : Option α} {a : α}
    (h : (require n fault x).outcome = .ok a) : x = some a := by
  cases x with
  | none => cases h
  | some b =>
      cases h
      rfl

theorem bind_ok {α β : Type} {x : Analysis α} {f : α → Analysis β} {b : β}
    (h : (x >>= f).outcome = .ok b) : ∃ a, x.outcome = .ok a ∧ (f a).outcome = .ok b := by
  rw [outcome_bind] at h
  exact except_bind_ok h

/-- One result for each item, and each result that of an item. -/
theorem each_ok {α β : Type} {f : α → Analysis β} {as : List α} {bs : List β}
    (h : (each f as).outcome = .ok bs) :
    bs.length = as.length ∧ ∀ b ∈ bs, ∃ a ∈ as, (f a).outcome = .ok b := by
  induction as generalizing bs with
  | nil =>
      cases h
      exact ⟨rfl, fun b hb => by cases hb⟩
  | cons a rest ih =>
      obtain ⟨b, hb, h⟩ := bind_ok h
      rw [outcome_map] at h
      cases hrest : (each f rest).outcome with
      | error e =>
          rw [hrest] at h
          cases h
      | ok more =>
          rw [hrest] at h
          cases h
          obtain ⟨hlen, hmore⟩ := ih hrest
          refine ⟨congrArg Nat.succ hlen, fun c hc => ?_⟩
          rcases List.mem_cons.1 hc with rfl | hc
          · exact ⟨a, List.mem_cons_self, hb⟩
          · obtain ⟨x, hx, hxc⟩ := hmore c hc
            exact ⟨x, List.mem_cons_of_mem a hx, hxc⟩

/-- The instructions are results of `analyse` on elements inside the element, or on itself. -/
def Analysed (analyse : Node → Analysis Instr) (n : Node) (is : List Instr) : Prop :=
  ∀ i ∈ is, ∃ m ∈ n.postorder, (analyse m).outcome = .ok i

section Shaped

variable {analyse : Node → Analysis Instr} {n : Node} {is : List Instr}

theorem operand_mem {m : Node} {what : String} {skip : List String}
    (h : (operand n what skip).outcome = .ok m) : m ∈ n.children :=
  List.mem_of_find?_eq_some (require_ok h)

theorem wrapper_mem {m : Node} {tag : String} (h : (wrapper n tag).outcome = .ok m) :
    m ∈ n.postorder :=
  Node.mem_postorder_of_child n.self_mem_postorder (List.mem_of_find?_eq_some (require_ok h))

theorem each_analysed {m : Node} (hm : m ∈ n.postorder)
    (h : (each analyse m.children).outcome = .ok is) : Analysed analyse n is := by
  intro i hi
  obtain ⟨k, hk, hki⟩ := (each_ok h).2 i hi
  exact ⟨k, Node.mem_postorder_of_child hm hk, hki⟩

theorem block_analysed {tag : String} (h : (block analyse n tag).outcome = .ok is) :
    Analysed analyse n is := by
  obtain ⟨w, hw, h⟩ := bind_ok h
  exact each_analysed (wrapper_mem hw) h

theorem each_wrapped_analysed {tags : List String}
    (h : (each (wrapped analyse n) tags).outcome = .ok is) : Analysed analyse n is := by
  intro i hi
  obtain ⟨tag, _, htag⟩ := (each_ok h).2 i hi
  obtain ⟨w, hw, htag⟩ := bind_ok htag
  obtain ⟨inner, hinner, hi⟩ := bind_ok htag
  exact ⟨inner, Node.mem_postorder_of_child (wrapper_mem hw)
    (List.mem_of_head? (require_ok hinner)), hi⟩

theorem Analysed.nil : Analysed analyse n [] := fun _ hi => by cases hi

theorem Analysed.cons {m : Node} {i : Instr} (hm : m ∈ n.children)
    (h : (analyse m).outcome = .ok i) (his : Analysed analyse n is) :
    Analysed analyse n (i :: is) := by
  intro j hj
  rcases List.mem_cons.1 hj with rfl | hj
  · exact ⟨m, Node.mem_postorder_of_child n.self_mem_postorder hm, h⟩
  · exact his j hj

theorem Analysed.append {js : List Instr} (his : Analysed analyse n is)
    (hjs : Analysed analyse n js) : Analysed analyse n (is ++ js) := by
  intro i hi
  rcases List.mem_append.1 hi with hi | hi
  · exact his i hi
  · exact hjs i hi

/-- The instruction of an element is shaped and has its span, and what is inside it has been
    analysed. -/
theorem shaped_ok {shape : Shape} {i : Instr} (hfits : shape.Fits)
    (h : (shaped analyse n shape).outcome = .ok i) :
    i.Shaped ∧ i.span = some n.span ∧ Analysed analyse n i.children := by
  have hself := n.self_mem_postorder
  cases shape with
  | reference =>
      obtain ⟨name, _, h⟩ := bind_ok h
      cases h
      exact ⟨.of_payload (by decide) trivial, rfl, .nil⟩
  | literal kind cast =>
      obtain ⟨⟨hknown, harity⟩, hcast, hneeds, hone⟩ := hfits
      simp only [shaped] at h
      split at h
      · cases h
        exact ⟨.of_payload hknown (by rw [harity]; trivial), rfl, .nil⟩
      · obtain ⟨child, hchild, h⟩ := bind_ok h
        obtain ⟨e, he, h⟩ := bind_ok h
        cases h
        exact ⟨.of_operands hcast hneeds (by rw [hone]; rfl), rfl,
          .cons (List.mem_of_head? (require_ok hchild)) he .nil⟩
  | nary kind needsOperand =>
      obtain ⟨hknown, hneeds, harity⟩ := hfits
      obtain ⟨operands, hops, h⟩ := bind_ok h
      split at h
      · cases h
      · rename_i hnonempty
        cases h
        refine ⟨.of_operands hknown hneeds ?_, rfl,
          .append (.append (each_analysed hself hops) .nil) .nil⟩
        rw [harity]
        cases needsOperand with
        | false => trivial
        | true =>
            cases operands with
            | nil => exact absurd rfl hnonempty
            | cons e rest => exact Nat.succ_le_succ (Nat.zero_le _)
  | comparison kind =>
      obtain ⟨hknown, hneeds, harity⟩ := hfits
      simp only [shaped] at h
      split at h
      · rename_i htwo
        obtain ⟨operands, hops, h⟩ := bind_ok h
        cases h
        refine ⟨.of_operands hknown hneeds ?_, rfl,
          .append (.append (each_analysed hself hops) .nil) .nil⟩
        rw [harity]
        exact (each_ok hops).1.trans htwo
      · cases h
  | unary kind =>
      obtain ⟨hknown, hneeds, harity⟩ := hfits
      obtain ⟨child, hchild, h⟩ := bind_ok h
      obtain ⟨e, he, h⟩ := bind_ok h
      cases h
      exact ⟨.of_operands hknown hneeds (by rw [harity]; rfl), rfl,
        .cons (operand_mem hchild) he .nil⟩
  | assign =>
      obtain ⟨name, _, h⟩ := bind_ok h
      obtain ⟨child, hchild, h⟩ := bind_ok h
      obtain ⟨e, he, h⟩ := bind_ok h
      cases h
      exact ⟨.of_payload (by decide) rfl, rfl, .cons (operand_mem hchild) he .nil⟩
  | call =>
      obtain ⟨args, hargs, h⟩ := bind_ok h
      split at h
      · cases h
        exact ⟨.of_payload (by decide) trivial, rfl,
          .append (.append (block_analysed hargs) .nil) .nil⟩
      · obtain ⟨child, hchild, h⟩ := bind_ok h
        obtain ⟨callee, hcallee, h⟩ := bind_ok h
        cases h
        exact ⟨.of_operands (by decide) rfl (Nat.succ_le_succ (Nat.zero_le _)), rfl,
          .append (.append (.cons (operand_mem hchild) hcallee (block_analysed hargs)) .nil) .nil⟩
  | condition =>
      obtain ⟨child, hchild, h⟩ := bind_ok h
      obtain ⟨test, htest, h⟩ := bind_ok h
      obtain ⟨thenBlock, hthen, h⟩ := bind_ok h
      split at h
      · cases h
        exact ⟨.of_operands (by decide) rfl rfl, rfl,
          .append (.append (.cons (operand_mem hchild) htest .nil) (block_analysed hthen)) .nil⟩
      · rename_i other hother
        obtain ⟨elseBlock, helse, h⟩ := bind_ok h
        cases h
        have hmem := Node.mem_postorder_of_child hself (List.mem_of_find?_eq_some hother)
        exact ⟨.of_operands (by decide) rfl rfl, rfl,
          .append (.append (.cons (operand_mem hchild) htest .nil) (block_analysed hthen))
            (each_analysed hmem helse)⟩
  | countLoop =>
      obtain ⟨name, _, h⟩ := bind_ok h
      obtain ⟨bounds, hbounds, h⟩ := bind_ok h
      obtain ⟨body, hbody, h⟩ := bind_ok h
      cases h
      exact ⟨.of_payload (by decide) (each_ok hbounds).1, rfl,
        .append (.append (each_wrapped_analysed hbounds) (block_analysed hbody)) .nil⟩
  | eachLoop =>
      obtain ⟨name, _, h⟩ := bind_ok h
      obtain ⟨child, hchild, h⟩ := bind_ok h
      obtain ⟨array, harray, h⟩ := bind_ok h
      obtain ⟨body, hbody, h⟩ := bind_ok h
      cases h
      exact ⟨.of_payload (by decide) rfl, rfl,
        .append (.append (.cons (operand_mem hchild) harray .nil) (block_analysed hbody)) .nil⟩
  | whileLoop =>
      obtain ⟨child, hchild, h⟩ := bind_ok h
      obtain ⟨test, htest, h⟩ := bind_ok h
      obtain ⟨body, hbody, h⟩ := bind_ok h
      cases h
      exact ⟨.of_operands (by decide) rfl rfl, rfl,
        .append (.append (.cons (operand_mem hchild) htest .nil) (block_analysed hbody)) .nil⟩
  | store kind parts =>
      obtain ⟨hknown, hneeds, harity⟩ := hfits
      obtain ⟨operands, hops, h⟩ := bind_ok h
      cases h
      refine ⟨.of_operands hknown hneeds ?_, rfl,
        .append (.append (each_wrapped_analysed hops) .nil) .nil⟩
      rw [harity]
      exact (each_ok hops).1

end Shaped

/-! ## All depths -/

theorem instrOfDepth_shaped {depth : Nat} {n : Node} {i : Instr}
    (h : (instrOfDepth depth n).outcome = .ok i) : ∀ j ∈ i.parts, j.Shaped := by
  induction depth generalizing n i with
  | zero => cases h
  | succ depth ih =>
      obtain ⟨_, _, h⟩ := bind_ok h
      obtain ⟨shape, hshape, h⟩ := bind_ok h
      obtain ⟨hi, _, hchildren⟩ := shaped_ok (Shape.fits_of_ofTag? (require_ok hshape)) h
      exact Instr.forall_parts hi fun j hj => by
        obtain ⟨m, _, hm⟩ := hchildren j hj
        exact ih hm

/-- The analysis of an element gives an instruction that is shaped at any depth. -/
theorem instr_shaped {n : Node} {i : Instr} (h : (instr n).outcome = .ok i) :
    ∀ j ∈ i.parts, j.Shaped :=
  instrOfDepth_shaped h

theorem each_instr_shaped {ns : List Node} {is : List Instr}
    (h : (each instr ns).outcome = .ok is) : ∀ i ∈ Instr.partsAll is, i.Shaped := by
  intro i hi
  obtain ⟨j, hj, hi⟩ := Instr.exists_mem_of_mem_partsAll hi
  obtain ⟨n, _, hn⟩ := (each_ok h).2 j hj
  exact instr_shaped hn i hi

theorem functionDef_shaped {n : Node} {f : FunctionDef} (h : (functionDef n).outcome = .ok f) :
    ∀ i ∈ Instr.partsAll f.body, i.Shaped := by
  obtain ⟨name, _, h⟩ := bind_ok h
  obtain ⟨arguments, _, h⟩ := bind_ok h
  obtain ⟨params, _, h⟩ := bind_ok h
  obtain ⟨body, hbody, h⟩ := bind_ok h
  cases h
  obtain ⟨w, _, hbody⟩ := bind_ok hbody
  exact each_instr_shaped hbody

theorem topLevel_functions {main? : Option Node} {ns : List Node}
    {r : List FunctionDef × Option Node} (h : (topLevel main? ns).outcome = .ok r) :
    ∀ f ∈ r.1, ∃ n ∈ ns, (functionDef n).outcome = .ok f := by
  induction ns generalizing main? r with
  | nil =>
      cases h
      exact fun f hf => by cases hf
  | cons n rest ih =>
      unfold topLevel at h
      split at h
      · obtain ⟨f, hf, h⟩ := bind_ok h
        obtain ⟨r', hr', h⟩ := bind_ok h
        cases h
        intro g hg
        rcases List.mem_cons.1 hg with rfl | hg
        · exact ⟨n, List.mem_cons_self, hf⟩
        · obtain ⟨m, hm, hg⟩ := ih hr' g hg
          exact ⟨m, List.mem_cons_of_mem n hm, hg⟩
      · split at h
        · split at h
          · cases h
          · intro g hg
            obtain ⟨m, hm, hg⟩ := ih h g hg
            exact ⟨m, List.mem_cons_of_mem n hm, hg⟩
        · cases h

/-- The analysis of a document gives a program all of whose instructions are shaped. -/
theorem program_shaped {root : Node} {p : Program} (h : (program root).outcome = .ok p) :
    p.Shaped := by
  obtain ⟨⟨functions, main?⟩, htop, h⟩ := bind_ok h
  obtain ⟨main, _, h⟩ := bind_ok h
  obtain ⟨statements, hmain, h⟩ := bind_ok h
  cases h
  intro i hi
  rcases List.mem_append.1 hi with hi | hi
  · exact each_instr_shaped hmain i hi
  · obtain ⟨f, hf, hi⟩ := List.mem_flatMap.1 hi
    obtain ⟨n, _, hn⟩ := topLevel_functions htop f hf
    exact functionDef_shaped hn i hi

end Analysis

end TagScript
