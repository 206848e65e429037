import TagScript.Proofs.Eval.Parts
import TagScript.Proofs.Eval.View
import TagScript.Proofs.Location.Fresh

set_option autoImplicit false

/-! # Simulations

A run can be seen with other lists, output, instructions and places than it has. A simulation says
how: a view shows the values and lists, and instructions and faults may differ in their places.
There may also be names that are hidden, which instructions must not read. One run *simulates*
another if from every state in which no function reads a hidden name it ends, as it is seen, as the
other one does, and no such function comes up. The relation is kept by all ways of putting runs
together. -/

namespace TagScript

/-- A way to see runs. -/
structure Simulation extends View where
  instr : Instr → Instr
  place : Option Span → Option Span
  halt : Halt → Halt
  /-- The names that are not read. -/
  hidden : Name → Prop
  value_closure : ∀ f, value (.closure f) = .closure { f with body := f.body.map instr }
  kind_instr : ∀ i, (instr i).kind = i.kind
  value_instr : ∀ i, (instr i).value = i.value
  operands_instr : ∀ i, (instr i).operands = i.operands.map instr
  body_instr : ∀ i, (instr i).body = i.body.map instr
  orelse_instr : ∀ i, (instr i).orelse = i.orelse.map instr
  span_instr : ∀ i, (instr i).span = place i.span
  halt_raised : ∀ h, h.Raised → halt h = h
  halt_locate : ∀ h span, halt (h.locate span) = (halt h).locate (place span)

namespace Simulation

variable (e : Simulation)

/-! ## States -/

/-- The frame as it is seen. -/
def frame (f : Frame) : Frame := f.map e.value

/-- The state as it is seen. -/
def state (s : State) : State := ⟨e.frame s.frame, e.store s.store, s.depth⟩

@[simp] theorem state_store (s : State) : (e.state s).store = e.store s.store := rfl

theorem get?_frame (f : Frame) (name : Name) :
    (e.frame f).bindings.get? name = (f.bindings.get? name).map e.value :=
  f.bindings.get?_map e.value name

/-! ## Names that are read -/

/-- No instruction inside reads a hidden name. -/
def FreeIn (is : List Instr) : Prop :=
  ∀ i ∈ Instr.partsAll is, i.kind = .value → ¬ e.hidden i.value

/-- The value is not a function whose body reads a hidden name. -/
def Free (v : Value) : Prop := ∀ f, v = .closure f → e.FreeIn f.body

/-- What an evaluation gives is free. -/
def FreeResult (r : Option Value) : Prop := ∀ v, r = some v → e.Free v

/-- All values are free. -/
def FreeAll (vs : List Value) : Prop := ∀ v ∈ vs, e.Free v

/-- No function in the frame or the heap reads a hidden name. -/
structure FreeState (s : State) : Prop where
  frame : s.frame.Each e.Free
  heap : s.store.heap.Each e.Free

variable {e}

theorem FreeIn.mem {is : List Instr} (h : e.FreeIn is) {i : Instr} (hi : i ∈ is) :
    e.FreeIn [i] := by
  intro j hj
  rw [Instr.partsAll, Instr.partsAll, List.append_nil] at hj
  exact h j ((Instr.parts_sublist_partsAll hi).subset hj)

/-- What is right inside an instruction reads no more than the instruction. -/
theorem FreeIn.children {i : Instr} (h : e.FreeIn [i]) : e.FreeIn i.children := by
  intro j hj
  refine h j ?_
  rw [Instr.partsAll, Instr.partsAll, List.append_nil, Instr.parts_eq]
  exact List.mem_cons_of_mem i hj

theorem FreeIn.subset {is js : List Instr} (h : e.FreeIn is) (hsub : js ⊆ is) : e.FreeIn js := by
  intro j hj
  obtain ⟨i, hi, hj⟩ := Instr.exists_mem_of_mem_partsAll hj
  exact h j ((Instr.parts_sublist_partsAll (hsub hi)).subset hj)

theorem FreeIn.operands {i : Instr} (h : e.FreeIn [i]) : e.FreeIn i.operands :=
  h.children.subset fun _ => Instr.mem_children_of_operands

theorem FreeIn.body {i : Instr} (h : e.FreeIn [i]) : e.FreeIn i.body :=
  h.children.subset fun _ => Instr.mem_children_of_body

theorem FreeIn.orelse {i : Instr} (h : e.FreeIn [i]) : e.FreeIn i.orelse :=
  h.children.subset fun _ => Instr.mem_children_of_orelse

theorem FreeIn.self {i : Instr} (h : e.FreeIn [i]) (hkind : i.kind = .value) :
    ¬ e.hidden i.value := by
  refine h i ?_ hkind
  rw [Instr.partsAll, Instr.partsAll, List.append_nil]
  exact i.self_mem_parts

theorem Free.of_inert {v : Value} (h : v.Inert) : e.Free v := by
  rintro f rfl
  cases h

theorem Free.list (id : Nat) : e.Free (.list id) := nofun

theorem FreeResult.none : e.FreeResult none := nofun

theorem FreeResult.some {v : Value} (h : e.Free v) : e.FreeResult (some v) := by
  rintro w ⟨⟩
  exact h

/-! ### Without hidden names -/

section Open

variable (hopen : ∀ name, ¬ e.hidden name)
include hopen

theorem freeIn_of_open (is : List Instr) : e.FreeIn is := fun i _ _ => hopen i.value

theorem free_of_open (v : Value) : e.Free v := fun f _ => freeIn_of_open hopen f.body

theorem freeState_of_open (s : State) : e.FreeState s where
  frame := ⟨fun _ v _ => free_of_open hopen v, fun v _ => free_of_open hopen v⟩
  heap _ v _ := free_of_open hopen v

end Open

/-! ## Ways of putting runs together -/

variable (e)

/-- The outcome as it is seen, with its result changed. -/
def outcome {α β : Type} (g : α → β) : Outcome State α → Outcome State β
  | .done a s => .done (g a) (e.state s)
  | .halted h s => .halted (e.halt h) (e.state s)
  | .outOfFuel => .outOfFuel

/-- What holds of the result and the state that were reached. -/
def Ends {α : Type} (Q : α → Prop) : Outcome State α → Prop
  | .done a s => Q a ∧ e.FreeState s
  | .halted _ s => e.FreeState s
  | .outOfFuel => True

/-- From every free state the second run ends, as it is seen, as the first does, with a result for
    which `Q` holds and in a free state. -/
def Simulates {α β : Type} (Q : α → Prop) (g : α → β) (m : Run α) (m' : Run β) : Prop :=
  ∀ s, e.FreeState s → m' (e.state s) = e.outcome g (m s) ∧ e.Ends Q (m s)

namespace Simulates

variable {e} {α β γ δ : Type} {Q : α → Prop} {g : α → β} {m : Run α} {m' : Run β}

theorem pure {a : α} (ha : Q a) {b : β} (hb : b = g a) :
    e.Simulates Q g (Pure.pure a) (Pure.pure b) := by
  subst hb
  exact fun s hs => ⟨rfl, ha, hs⟩

theorem bind {R : γ → Prop} {k : γ → δ} {f : α → Run γ} {f' : β → Run δ}
    (hm : e.Simulates Q g m m') (hf : ∀ a, Q a → e.Simulates R k (f a) (f' (g a))) :
    e.Simulates R k (m >>= f) (m' >>= f') := by
  intro s hs
  obtain ⟨heq, hends⟩ := hm s hs
  rw [Run.bind_apply, Run.bind_apply, heq]
  generalize m s = o at hends ⊢
  cases o with
  | done a t => exact hf a hends.1 t hends.2
  | halted h t => exact ⟨rfl, hends⟩
  | outOfFuel => exact ⟨rfl, trivial⟩

/-- A fault without a place is seen as it is. -/
theorem halt {h : Halt} (hh : h.Fresh) : e.Simulates Q g (Run.halt h) (Run.halt h) :=
  fun s hs => ⟨congrArg (Outcome.halted · (e.state s)) (e.halt_raised h (.inl hh)).symm, hs⟩

theorem exhausted : e.Simulates Q g Run.exhausted Run.exhausted := fun _ _ => ⟨rfl, trivial⟩

theorem lift {x : Except Halt α} (hx : ∀ a, x = .ok a → Q a) (hfresh : Freshly x)
    {y : Except Halt β} (hy : y = x.map g) : e.Simulates Q g (Run.lift x) (Run.lift y) := by
  subst hy
  cases hfresh with
  | ok a => exact .pure (hx a rfl) rfl
  | error hh => exact .halt hh

/-- A computation that does not depend on what is seen. -/
theorem lift_same {x : Except Halt α} (hfresh : Freshly x) :
    e.Simulates (fun _ => True) id (Run.lift x) (Run.lift x) := by
  refine .lift (fun _ _ => trivial) hfresh ?_
  cases x <;> rfl

theorem lift_inert {x : Except Halt Value} (hfresh : Freshly x)
    (hx : ∀ v, x = .ok v → v.Inert) : e.Simulates e.Free e.value (Run.lift x) (Run.lift x) := by
  refine .lift (fun v hv => .of_inert (hx v hv)) hfresh ?_
  cases x with
  | ok v => exact congrArg Except.ok (e.value_of_inert (hx v rfl)).symm
  | error h => rfl

theorem read {f : State → α} {f' : State → β} (hf : ∀ s, f' (e.state s) = g (f s))
    (hQ : ∀ s, e.FreeState s → Q (f s)) : e.Simulates Q g (Run.read f) (Run.read f') := by
  intro s hs
  rw [Run.read_apply, hf]
  exact ⟨rfl, hQ s hs, hs⟩

theorem heap : e.Simulates (·.Each e.Free) e.heap (Run.read (·.store.heap))
    (Run.read (·.store.heap)) :=
  .read (fun _ => rfl) fun _ hs => hs.heap

theorem frame : e.Simulates (·.Each e.Free) e.frame (Run.read (·.frame)) (Run.read (·.frame)) :=
  .read (fun _ => rfl) fun _ hs => hs.frame

theorem returning : e.Simulates (fun _ => True) id Run.returning Run.returning :=
  .read (fun _ => Option.isSome_map) fun _ _ => trivial

theorem depth : e.Simulates (fun _ => True) id (Run.read (·.depth)) (Run.read (·.depth)) :=
  .read (fun _ => rfl) fun _ _ => trivial

theorem bindName (name : Name) {v : Value} (hv : e.Free v) :
    e.Simulates (fun _ => True) id (Run.bindName name v) (Run.bindName name (e.value v)) := by
  intro s hs
  refine ⟨?_, trivial, hs.frame.bind name hv, hs.heap⟩
  have hbind := s.frame.bind_map e.value name v
  exact congrArg (fun f => Outcome.done () (State.mk f (e.store s.store) s.depth)) hbind

theorem signalReturn {v : Value} (hv : e.Free v) :
    e.Simulates (fun _ => True) id (Run.signalReturn v) (Run.signalReturn (e.value v)) := by
  intro s hs
  refine ⟨rfl, trivial, ⟨hs.frame.bindings, ?_⟩, hs.heap⟩
  rintro w ⟨⟩
  exact hv

theorem onStore {f : Store → Except Halt (α × Store)} {f' : Store → Except Halt (β × Store)}
    (hf : ∀ s, f' (e.store s) = (f s).map fun r => (g r.1, e.store r.2))
    (hraised : ∀ s h, f s = .error h → h.Raised)
    (hQ : ∀ s a t, s.heap.Each e.Free → f s = .ok (a, t) → Q a ∧ t.heap.Each e.Free) :
    e.Simulates Q g (Run.onStore f) (Run.onStore f') := by
  intro s hs
  unfold Run.onStore
  rw [state_store, hf]
  have hok := hQ s.store
  have hraised := hraised s.store
  generalize f s.store = x at hok hraised ⊢
  cases x with
  | ok r =>
      obtain ⟨hr, hheap⟩ := hok r.1 r.2 hs.heap rfl
      exact ⟨rfl, hr, hs.frame, hheap⟩
  | error h =>
      have hsame := (e.halt_raised h (hraised h rfl)).symm
      exact ⟨congrArg (Outcome.halted · (e.state s)) hsame, hs⟩

theorem onHeap {f f' : Heap → Except Halt Heap} (hf : ∀ h, f' (e.heap h) = (f h).map e.heap)
    (hfresh : ∀ h, Freshly (f h)) (hfree : ∀ h k, h.Each e.Free → f h = .ok k → k.Each e.Free) :
    e.Simulates (fun _ => True) id (Run.onHeap f) (Run.onHeap f') := by
  refine .onStore (fun s => ?_) (fun s _ => (hfresh s.heap).map.raised) fun s _ t hs hok => ?_
  · rw [View.store_heap, hf]
    cases f s.heap <;> rfl
  · obtain ⟨heap, hheap, ht⟩ := except_map_ok hok
    cases ht
    exact ⟨trivial, hfree s.heap heap hs hheap⟩

/-- With tracing on, the two lines have to be the same. -/
theorem trace {debug : Bool} {line line' : State → Except Halt String}
    (hline : debug = true → ∀ s, line' (e.state s) = line s ∧ Freshly (line s)) :
    e.Simulates (fun _ => True) id (Run.trace debug line) (Run.trace debug line') := by
  cases debug with
  | false => exact .pure trivial rfl
  | true =>
      intro s hs
      obtain ⟨hsame, hfresh⟩ := hline rfl s
      rw [Run.trace_true_apply, Run.trace_true_apply, hsame]
      generalize line s = x at hfresh ⊢
      cases hfresh with
      | ok text =>
          refine ⟨?_, trivial, hs.frame, hs.heap⟩
          exact congrArg (fun store => Outcome.done () (State.mk (e.frame s.frame) store s.depth))
            (View.trace _ s.store text)
      | @error h hh =>
          exact ⟨congrArg (Outcome.halted · (e.state s)) (e.halt_raised h (.inl hh)).symm, hs⟩

theorem located (span : Option Span) (hm : e.Simulates Q g m m') :
    e.Simulates Q g (Run.located span m) (Run.located (e.place span) m') := by
  intro s hs
  obtain ⟨heq, hends⟩ := hm s hs
  unfold Run.located
  rw [heq]
  generalize m s = o at hends ⊢
  cases o with
  | done a t => exact ⟨rfl, hends⟩
  | halted h t => exact ⟨congrArg (Outcome.halted · _) (e.halt_locate h span).symm, hends⟩
  | outOfFuel => exact ⟨rfl, trivial⟩

theorem iterating (id : Nat) (hm : e.Simulates Q g m m') :
    e.Simulates Q g (Run.iterating id m) (Run.iterating (e.number id) m') := by
  intro s hs
  have hopen : e.FreeState
      { s with store := { s.store with heap := s.store.heap.beginIteration id } } :=
    ⟨hs.frame, hs.heap.of_items fun other => s.store.heap.items_beginIteration id other⟩
  obtain ⟨heq, hends⟩ := hm _ hopen
  have hbegin : e.state { s with store := { s.store with heap := s.store.heap.beginIteration id } }
      = { e.state s with
          store := { (e.state s).store with
            heap := (e.state s).store.heap.beginIteration (e.number id) } } :=
    congrArg (fun h => State.mk (e.frame s.frame) { e.store s.store with heap := h } s.depth)
      (View.beginIteration _ s.store.heap id).symm
  have hend (t : State) :
      { e.state t with
        store := { (e.state t).store with
          heap := (e.state t).store.heap.endIteration (e.number id) } }
      = e.state { t with store := { t.store with heap := t.store.heap.endIteration id } } :=
    congrArg (fun h => State.mk (e.frame t.frame) { e.store t.store with heap := h } t.depth)
      (View.endIteration _ t.store.heap id)
  have hclosed (t : State) (ht : e.FreeState t) :
      e.FreeState { t with store := { t.store with heap := t.store.heap.endIteration id } } :=
    ⟨ht.frame, ht.heap.of_items fun other => t.store.heap.items_endIteration id other⟩
  unfold Run.iterating
  rw [← hbegin, heq]
  generalize m _ = o at hends ⊢
  cases o with
  | done a t => exact ⟨congrArg (Outcome.done (g a)) (hend t), hends.1, hclosed t hends.2⟩
  | halted h t => exact ⟨congrArg (Outcome.halted (e.halt h)) (hend t), hclosed t hends⟩
  | outOfFuel => exact ⟨rfl, trivial⟩

theorem inFrame {frame : Frame} (hframe : frame.Each e.Free) {m m' : Run Unit}
    (hm : e.Simulates (fun _ => True) id m m') :
    e.Simulates e.FreeResult (Option.map e.value) (Run.inFrame frame m)
      (Run.inFrame (e.frame frame) m') := by
  intro s hs
  have hinner : e.FreeState { s with frame, depth := s.depth + 1 } := ⟨hframe, hs.heap⟩
  obtain ⟨heq, hends⟩ := hm _ hinner
  have heq' : m' { e.state s with frame := e.frame frame, depth := (e.state s).depth + 1 }
      = e.outcome id (m { s with frame, depth := s.depth + 1 }) := heq
  unfold Run.inFrame
  rw [heq']
  generalize m { s with frame, depth := s.depth + 1 } = o at hends ⊢
  cases o with
  | done a t => exact ⟨rfl, hends.2.frame.returned, hs.frame, hends.2.heap⟩
  | halted h t => exact ⟨rfl, hs.frame, hends.heap⟩
  | outOfFuel => exact ⟨rfl, trivial⟩

end Simulates

end Simulation

end TagScript
