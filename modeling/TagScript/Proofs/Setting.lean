import TagScript.Proofs.Eval.Simulates

set_option autoImplicit false

/-! # Runs in a setting

A run can be seen in a setting in which there is more: older lists in the heap, output written
before, and frames between its own frames and the root. In the setting the lists of the run have
other numbers, and its output comes after the older output. The frames in between do not matter as
long as no instruction that the run comes to evaluate reads a name that they bind: evaluation in the
setting simulates evaluation without it (`Setting.simulation`). -/

namespace TagScript

/-- What is there besides what a run knows of. -/
structure Setting where
  /-- The lists that come before those of the run. -/
  lists : Array SharedList := #[]
  stdout : String := ""
  stderr : String := ""
  /-- The frames between those of the run and the root, from the inside out. -/
  between : List Frame := []

namespace Setting

variable (e : Setting)

/-- The value in the setting. -/
def value : Value → Value
  | .list id => .list (e.lists.size + id)
  | v => v

/-- The heap in the setting. -/
def heap (h : Heap) : Heap := ⟨e.lists ++ h.lists.map (.map e.value)⟩

theorem getElem?_heap (h : Heap) (id : Nat) :
    (e.heap h).lists[e.lists.size + id]? = h.lists[id]?.map (.map e.value) := by
  simp [heap, Array.getElem?_append_right]

theorem modify_heap (h : Heap) (id : Nat) {f f' : SharedList → SharedList}
    (hf : ∀ l, f' (l.map e.value) = (f l).map e.value) :
    (⟨(e.heap h).lists.modify (e.lists.size + id) f'⟩ : Heap)
      = e.heap ⟨h.lists.modify id f⟩ := by
  refine congrArg Heap.mk (Array.ext_getElem? fun i => ?_)
  simp only [heap, Array.getElem?_modify, Array.getElem?_append, Array.getElem?_map]
  by_cases hi : i < e.lists.size
  · rw [if_pos hi, if_pos hi, if_neg (by omega)]
  · have hsame : e.lists.size + id = i ↔ id = i - e.lists.size := by omega
    simp only [if_neg hi, hsame]
    split
    · cases h.lists[i - e.lists.size]? with
      | none => rfl
      | some l => exact congrArg some (hf l)
    · rfl

/-- What the setting shows of values, lists and output. -/
def view : View where
  value := e.value
  number id := e.lists.size + id
  heap := e.heap
  stdout := e.stdout
  stderr := e.stderr
  alike v := by
    cases v with
    | closure f => exact .closure f f rfl
    | _ => constructor
  injective _ _ h := Nat.add_left_cancel h
  size_le h := by simp [heap]
  getElem? := e.getElem?_heap
  modify h id _ _ hf := e.modify_heap h id hf
  alloc h items := by simp [Heap.alloc, heap, SharedList.map, value]

/-- The frame in the setting. -/
def frame (f : Frame) : Frame := f.map e.value

@[simp] theorem frame_ofProgram (p : Program) (arguments : List String) :
    e.frame (Frame.ofProgram p arguments) = Frame.ofProgram p arguments :=
  Frame.map_ofProgram e.value p arguments (fun _ => rfl) fun _ => rfl

/-- The name is bound in a frame in between. -/
def Binds (name : Name) : Prop := ∃ f ∈ e.between, (f.bindings.get? name).isSome

/-- In the setting, instructions and places are as they are. The names that are bound in between
    are not read. -/
def simulation : Simulation where
  toView := e.view
  instr := id
  place := id
  halt := id
  hidden := e.Binds
  value_closure f := congrArg (fun body => Value.closure { f with body }) (List.map_id _).symm
  kind_instr _ := rfl
  value_instr _ := rfl
  operands_instr _ := (List.map_id _).symm
  body_instr _ := (List.map_id _).symm
  orelse_instr _ := (List.map_id _).symm
  span_instr _ := rfl
  halt_raised _ _ := rfl
  halt_locate _ _ := rfl

@[simp] theorem simulation_frame (f : Frame) : e.simulation.frame f = e.frame f := rfl

@[simp] theorem simulation_store (s : Store) : e.simulation.store s = e.view.store s := rfl

variable {e}

theorem not_binds_of_between_nil (h : e.between = []) (name : Name) : ¬ e.Binds name := by
  rintro ⟨f, hf, _⟩
  rw [h] at hf
  cases hf

/-- The root alone, and the root with the frames in between. -/
theorem chain_between {root : Frame}
    (h : ∀ name v, root.bindings.get? name = some v → e.simulation.Free v) :
    e.simulation.Chain [root] (e.between ++ [e.frame root]) where
  free := List.forall_mem_singleton.2 h
  lookup? name hname := by
    rw [Frame.lookup?_append fun f hf => ?_]
    · exact Frame.lookup?_map e.value name [root]
    · have hnone : ¬ (f.bindings.get? name).isSome := fun hsome => hname ⟨f, hf, hsome⟩
      simpa using hnone
  root f := Frame.root_append_singleton (e.frame f) e.between (e.frame root)

/-- The evaluation of a block in the setting simulates its evaluation without it. -/
theorem block (opts : Options) (fuel : Nat) {outer outer' : List Frame}
    (hchain : e.simulation.Chain outer outer') {is : List Instr} (his : e.simulation.FreeIn is) :
    e.simulation.Does (Eval.block (eval opts fuel outer) is)
      (Eval.block (eval opts fuel outer') is) := by
  have hblock := Simulation.block (Simulation.eval opts (fun _ _ => rfl) fuel hchain) his
  rwa [show is.map e.simulation.instr = is from List.map_id is] at hblock

/-! ## Settings without older lists and output -/

/-- The setting in which there are further frames and nothing else. -/
def ofFrames (between : List Frame) : Setting := { between }

section Frames

variable (between : List Frame)

theorem value_ofFrames : (ofFrames between).value = id := by
  funext v
  cases v with
  | list id => exact congrArg Value.list (Nat.zero_add id)
  | _ => rfl

theorem frame_ofFrames (f : Frame) : (ofFrames between).frame f = f := by
  rw [frame, value_ofFrames, Frame.map_id]

theorem store_ofFrames (s : Store) : (ofFrames between).view.store s = s := by
  have hlist : SharedList.map id = id := funext fun l => by simp [SharedList.map]
  have hheap (h : Heap) : (ofFrames between).heap h = h := by
    rw [heap, value_ofFrames, hlist]
    simp [ofFrames]
  simp only [View.store, view, hheap]
  simp [ofFrames]

theorem state_ofFrames (s : State) : (ofFrames between).simulation.state s = s :=
  congrArg₂ (State.mk · · s.depth) (frame_ofFrames between s.frame) (store_ofFrames between s.store)

/-- Further frames do not matter to a run that does not read the names they bind. -/
theorem eq_of_simulates {α : Type} {Q : α → Prop} {m m' : Run α}
    (h : (ofFrames between).simulation.Simulates Q id m m') {s : State}
    (hs : (ofFrames between).simulation.FreeState s) : m' s = m s := by
  have heq := (h s hs).1
  rw [state_ofFrames] at heq
  rw [heq]
  cases m s with
  | done a t => exact congrArg (Outcome.done a) (state_ofFrames between t)
  | halted k t => exact congrArg (Outcome.halted k) (state_ofFrames between t)
  | outOfFuel => rfl

end Frames

end Setting

end TagScript
