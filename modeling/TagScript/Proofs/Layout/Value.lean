import TagScript.Proofs.Eval.View
import TagScript.Proofs.Layout.Program

set_option autoImplicit false

/-! # Values and states without their places

The only values that hold places are functions of the program, in the instructions of their bodies.
No operation looks into a body. So forgetting places is a view of values and lists
(`bareView`). -/

namespace TagScript

/-! ## States without their places -/

/-- The function with all places in its body forgotten. -/
def Closure.bare (f : Closure) : Closure := { f with body := f.body.map Instr.bare }

/-- The value with all places in it forgotten. -/
def Value.bare : Value → Value
  | .closure f => .closure f.bare
  | v => v

/-- The bindings with all places in their values forgotten. -/
def Bindings.bare (b : Bindings) : Bindings := ⟨b.entries.map fun e => (e.1, e.2.bare)⟩

/-- The frame with all places in its values forgotten. -/
def Frame.bare (f : Frame) : Frame := ⟨f.bindings.bare, f.returned.map Value.bare⟩

/-- The list with all places in its items forgotten. -/
def SharedList.bare (l : SharedList) : SharedList := { l with items := l.items.map Value.bare }

/-- The heap with all places in its items forgotten. -/
def Heap.bare (h : Heap) : Heap := ⟨h.lists.map SharedList.bare⟩

/-- The store with all places in its values forgotten. -/
def Store.bare (s : Store) : Store := { s with heap := s.heap.bare }

/-- The state with all places in its values forgotten. -/
def State.bare (s : State) : State := { s with frame := s.frame.bare, store := s.store.bare }

/-- The halt with its place forgotten. -/
def Halt.bare : Halt → Halt
  | .fault cause place => .fault cause (Span.forget place)
  | .crash cause => .crash cause

/-! ## What is seen without places -/

theorem Value.alike_bare (v : Value) : Alike id v v.bare := by
  cases v with
  | list id => exact .list id
  | closure f => exact .closure f f.bare rfl
  | _ => constructor

/-- A change of one list, before or after the places are forgotten. -/
theorem Heap.modify_bare (h : Heap) (id : Nat) {f f' : SharedList → SharedList}
    (hf : ∀ l, f' l.bare = (f l).bare) :
    (⟨h.bare.lists.modify id f'⟩ : Heap) = bare ⟨h.lists.modify id f⟩ := by
  refine congrArg Heap.mk (Array.ext (by simp [bare]) fun i _ _ => ?_)
  simp only [bare, Array.getElem_map, Array.getElem_modify]
  split
  · exact hf _
  · rfl

/-- Values and lists seen without their places. -/
def bareView : View where
  value := Value.bare
  number := id
  heap := Heap.bare
  alike := Value.alike_bare
  injective _ _ h := h
  size_le h := by simp [Heap.bare]
  getElem? h id := Array.getElem?_map
  modify h id _ _ hf := h.modify_bare id hf
  alloc h items := by simp [Heap.alloc, Heap.bare, SharedList.bare, Value.bare]

theorem Store.bareView_store (s : Store) : bareView.store s = s.bare := by
  simp only [View.store, bareView, Store.bare, String.empty_append]

theorem Frame.ofProgram_bare (p : Program) (arguments : List String) :
    ofProgram p.bare arguments = (ofProgram p arguments).bare := by
  have hnatives := foldl_bind_map Value.bare (fun n : Native => some n.name) .native (fun _ => rfl)
    (Native.library arguments) {}
  unfold ofProgram Program.bare
  rw [List.foldl_map]
  refine Eq.trans ?_ (foldl_bind_map Value.bare (fun d : FunctionDef => some d.name) _
    (fun _ => rfl) p.functions _)
  rw [← hnatives]
  rfl

end TagScript
