import TagScript.Proofs.Setting

set_option autoImplicit false

/-! # Calls by value and calls by name

A function that is called as a value has the frames of its caller outside its own frame, and one
that is called by its name has the root alone. The difference goes on through all calls that its
body makes in turn. It is seen by an instruction that reads a name bound in a frame of the caller,
and by nothing else. -/

namespace TagScript

/-- An instruction in the body, at any depth, reads the value of the name. -/
def Closure.Reads (f : Closure) (name : Name) : Prop :=
  ∃ i ∈ Instr.partsAll f.body, i.kind = .value ∧ i.value = name

/-- The frames of an environment inside its root, from the inside out. -/
def Frame.inside (f : Frame) (outer : List Frame) : List Frame := (f :: outer).dropLast

theorem Frame.inside_append_root (f : Frame) (outer : List Frame) :
    f.inside outer ++ [f.root outer] = f :: outer := by
  induction outer generalizing f with
  | nil => rfl
  | cons g outer ih => exact congrArg (f :: ·) (ih g)

/-- A function that a call can come upon without reading a name of the caller's frames: one that the
    root binds, that is an argument, or that is an item of a list. -/
inductive Closure.HeldIn (s : State) (outer : List Frame) (args : List Value) (f : Closure) :
    Prop where
  | root (name : Name) (h : (s.frame.root outer).bindings.get? name = some (.closure f))
  | argument (h : .closure f ∈ args)
  | item (id : Nat) (h : .closure f ∈ s.store.heap.items id)

namespace Eval

/-- A call of a program function without tracing, once its outer frames are known. -/
theorem callClosure_apply {opts : Options} (hdebug : opts.debug = false) (ev : Evaluator)
    {outer inner : List Frame} {scope : Scope} {s : State}
    (hinner : calleeOuter scope s.frame outer = .ok inner) (f : Closure) (args : List Value) :
    callClosure opts ev outer scope f args s =
      if args.length ≠ f.params.length then
        .halted (.arity f.name f.params.length args.length) s
      else if opts.maxCallDepth ≤ s.depth then
        .halted (.fault (.callDepth opts.maxCallDepth) none) s
      else Run.inFrame (Frame.ofArguments f.params args) (block (ev inner) f.body) s := by
  unfold callClosure
  split
  · rfl
  · rw [Run.read_bind]
    split
    · rfl
    · rw [Run.read_bind, hinner, hdebug]
      rfl

end Eval

/-- If no function that a call can come upon reads a name bound in a frame of the caller inside the
    root, then a call by value and a call by name do the same, for every amount of fuel: they come
    to an end alike, with the same result or the same fault, in the same state. -/
theorem callValue_lexical_eq_global (opts : Options) (hdebug : opts.debug = false) (fuel : Nat)
    (outer : List Frame) (c : Closure) (args : List Value) (s : State)
    (hfree : ∀ f, f = c ∨ f.HeldIn s outer args → ∀ g ∈ s.frame.inside outer, ∀ name,
      (g.bindings.get? name).isSome → ¬ f.Reads name) :
    Eval.callValue opts (eval opts fuel) outer .lexical (.closure c) args s
      = Eval.callValue opts (eval opts fuel) outer .global (.closure c) args s := by
  let e := (Setting.ofFrames (s.frame.inside outer)).simulation
  have hbody (f : Closure) (hf : f = c ∨ f.HeldIn s outer args) : e.FreeIn f.body := by
    rintro i hi hkind ⟨g, hg, hsome⟩
    exact hfree f hf g hg i.value hsome ⟨i, hi, hkind, rfl⟩
  have hargs : e.FreeAll args := by
    rintro v hv f rfl
    exact hbody f (.inr (.argument hv))
  have hheap : s.store.heap.Each e.Free := by
    rintro id v hv f rfl
    exact hbody f (.inr (.item id hv))
  have hroot : ∀ name v, (s.frame.root outer).bindings.get? name = some v → e.Free v := by
    rintro name v hv f rfl
    exact hbody f (.inr (.root name hv))
  have hchain : e.Chain [s.frame.root outer] (s.frame :: outer) := by
    have hbetween := Setting.chain_between hroot
    rw [Setting.frame_ofFrames] at hbetween
    rwa [← s.frame.inside_append_root outer]
  have hblock := Setting.block opts fuel hchain (hbody c (.inl rfl))
  have hstart : e.FreeState
      { s with frame := Frame.ofArguments c.params args, depth := s.depth + 1 } :=
    ⟨.ofArguments hargs, hheap⟩
  have hsame := Setting.eq_of_simulates _ hblock hstart
  show Eval.callClosure opts (eval opts fuel) outer .lexical c args s
    = Eval.callClosure opts (eval opts fuel) outer .global c args s
  rw [Eval.callClosure_apply hdebug _ rfl, Eval.callClosure_apply hdebug _ rfl, Run.inFrame,
    Run.inFrame, hsame]

/-- An instruction that reads the value of a name. -/
def readName (name : String) : Instr := .mk .value (some name) [] [] [] none

/-- A function of one parameter that gives it back. -/
def giveArgument : Closure := ⟨"same", ["x"], [.mk .giveBack none [readName "x"] [] [] none]⟩

/-- A function that gives back what the function `same` of the root makes of its argument, calling
    it as a value. -/
def passOn : Closure :=
  ⟨"pass", ["x"], [.mk .giveBack none
    [.mk .call none [readName "same", readName "x"] [] [] none] [] [] none]⟩

/-- The root with the function `same`. -/
def rootWithSame : Frame := Frame.bind {} (some "same") (.closure giveArgument)

/-- A caller that binds a name which neither function reads. -/
def callerWithLocal : State := { frame := Frame.bind {} (some "local") (.int 1) }

/-- A function that is called from inside, and calls another one as a value. -/
theorem callValue_lexical_eq_global_passOn :
    ∃ t, Eval.callValue {} (eval {} 5) [rootWithSame] .lexical (.closure passOn) [.int 3]
        callerWithLocal = .done (some (.int 3)) t ∧
      Eval.callValue {} (eval {} 5) [rootWithSame] .global (.closure passOn) [.int 3]
        callerWithLocal = .done (some (.int 3)) t := by
  have hreads (f : Closure) (hf : f = giveArgument ∨ f = passOn) : ¬ f.Reads (some "local") := by
    rintro ⟨i, hi, hkind, hvalue⟩
    have hother : ∀ i ∈ Instr.partsAll f.body, i.kind = .value → i.value ≠ some "local" := by
      rcases hf with rfl | rfl <;> decide
    exact hother i hi hkind hvalue
  refine ⟨_, ?_, rfl⟩
  refine (callValue_lexical_eq_global {} rfl 5 [rootWithSame] passOn [.int 3] callerWithLocal
    ?_).trans rfl
  have hbound {name : Name} {v w : Value} {other : Name}
      (h : (Frame.bind {} other v).bindings.get? name = some w) : name = other ∧ w = v := by
    rw [show (Frame.bind {} other v).bindings.get? name = _ from
      Bindings.get?_insert {} other name v] at h
    split at h
    · exact ⟨‹_›, (Option.some.inj h).symm⟩
    · cases h
  intro f hf g hg name hsome
  obtain rfl : g = callerWithLocal.frame := List.mem_singleton.1 hg
  obtain ⟨w, hw⟩ := Option.isSome_iff_exists.1 hsome
  obtain ⟨rfl, -⟩ := hbound hw
  refine hreads f ?_
  rcases hf with rfl | ⟨root, h⟩ | h | ⟨id, h⟩
  · exact .inr rfl
  · exact .inl (Value.closure.inj (hbound h).2)
  · cases List.mem_singleton.1 h
  · exact (Heap.Each.empty (P := fun _ => False) id _ h).elim

end TagScript
