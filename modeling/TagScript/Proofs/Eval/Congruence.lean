import TagScript.Proofs.Eval.Atomic
import TagScript.Proofs.Location.Fresh
import TagScript.Proofs.Rendering
import TagScript.Session

set_option autoImplicit false

/-! # Relations that evaluation respects

Evaluation is put together from a few kinds of runs: those that read the state, change it in one
place or halt, and those that wrap another run. A relation between runs that holds for the former
and is kept by the latter holds for the evaluation of every instruction by two evaluators that it
relates (`Congruence.step`), and hence for evaluation itself, for calls and for the runs of a
program (`Congruence.eval`, `Congruence.evalCall`, `Congruence.run`). What is to be shown of all
evaluations need then be shown of the parts alone. -/

namespace TagScript

/-- A trace line that can be written unless it has to show the absent value. -/
def Eval.IsTraceLine (line : State → Except Halt String) : Prop :=
  ∀ s h, line s = .error h → h = .crash .absentInspected

theorem Eval.isTraceLine_text (text : String) : IsTraceLine fun _ => .ok text := by
  intro s h hline
  cases hline

theorem Eval.isTraceLine_callLine (f : Closure) (args : List Value) (scope : Scope) :
    IsTraceLine (callLine f args scope) := by
  intro s h hline
  unfold callLine at hline
  cases hshown : Value.formatAll (fun v => v.format s.store.heap true) args with
  | error e =>
      rw [hshown] at hline
      cases hline
      obtain ⟨v, -, hv⟩ := Value.formatAll_error hshown
      exact Value.formatWithin_error hv
  | ok shown =>
      rw [hshown] at hline
      cases hline

/-- A relation between runs under two sets of options that holds for the simple parts of an
    evaluation and is kept by putting them together. A run that lacks fuel is related to any. -/
structure Congruence (opts opts' : Options) (R : (α : Type) → Run α → Run α → Prop) : Prop where
  pure {α : Type} (a : α) : R α (pure a) (pure a)
  bind {α β : Type} {m m' : Run α} {f f' : α → Run β} :
    R α m m' → (∀ a, R β (f a) (f' a)) → R β (m >>= f) (m' >>= f')
  halt {α : Type} {h : Halt} : h.Fresh → R α (Run.halt h) (Run.halt h)
  exhausted {α : Type} (m : Run α) : R α Run.exhausted m
  read {α : Type} (f : Frame → Heap → Nat → α) :
    R α (Run.read fun s => f s.frame s.store.heap s.depth)
      (Run.read fun s => f s.frame s.store.heap s.depth)
  bindName (name : Name) (v : Value) : R Unit (Run.bindName name v) (Run.bindName name v)
  signalReturn (v : Value) : R Unit (Run.signalReturn v) (Run.signalReturn v)
  newList (vs : List Value) :
    R (Option Value) (Run.onStore fun s => .ok (some (s.newList vs).1, (s.newList vs).2))
      (Run.onStore fun s => .ok (some (s.newList vs).1, (s.newList vs).2))
  setItem (op : String) (id : Nat) (n : Int) (v : Value) :
    R Unit (Run.onHeap fun h => h.set op id n v) (Run.onHeap fun h => h.set op id n v)
  pushItem (op : String) (id : Nat) (v : Value) :
    R Unit (Run.onHeap fun h => h.push op id v) (Run.onHeap fun h => h.push op id v)
  effect (f : Native) (args : List Value) :
    R (Option Value) (Run.onStore (f.effect args)) (Run.onStore (f.effect args))
  writeTo (path contents : String) (append : Value) :
    R Unit (Native.writeTo path contents append) (Native.writeTo path contents append)
  trace {line : State → Except Halt String} : Eval.IsTraceLine line →
    R Unit (Run.trace opts.debug line) (Run.trace opts'.debug line)
  located {α : Type} (span : Option Span) {m m' : Run α} :
    R α m m' → R α (Run.located span m) (Run.located span m')
  iterating {α : Type} (id : Nat) {m m' : Run α} :
    R α m m' → R α (Run.iterating id m) (Run.iterating id m')
  inFrame (frame : Frame) {m m' : Run Unit} :
    R Unit m m' → R (Option Value) (Run.inFrame frame m) (Run.inFrame frame m')
  /-- The check of the call depth before a run. -/
  deeper {α : Type} {m m' : Run α} :
    R α m m' → ∀ depth : Nat,
      R α (if opts.maxCallDepth ≤ depth then Run.halt (.fault (.callDepth opts.maxCallDepth) none)
          else m)
        (if opts'.maxCallDepth ≤ depth then Run.halt (.fault (.callDepth opts'.maxCallDepth) none)
          else m')
  policy : opts.shortCircuitLoops = opts'.shortCircuitLoops

namespace Congruence

variable {opts opts' : Options} {R : (α : Type) → Run α → Run α → Prop}
  (c : Congruence opts opts' R)
include c

/-! ## Parts of instructions -/

theorem lift {α : Type} {e : Except Halt α} (he : Freshly e) : R α (Run.lift e) (Run.lift e) := by
  cases he with
  | ok a => exact c.pure a
  | error hh => exact c.halt hh

theorem returning : R Bool Run.returning Run.returning :=
  c.read fun frame _ _ => frame.returned.isSome

theorem heap : R Heap (Run.read (·.store.heap)) (Run.read (·.store.heap)) :=
  c.read fun _ heap _ => heap

theorem frame : R Frame (Run.read (·.frame)) (Run.read (·.frame)) :=
  c.read fun frame _ _ => frame

theorem firstOperand (i : Instr) : R Instr (Eval.firstOperand i) (Eval.firstOperand i) := by
  unfold Eval.firstOperand
  split
  · exact c.pure _
  · exact c.halt trivial

theorem literal (i : Instr) : R String (Eval.literal i) (Eval.literal i) := by
  unfold Eval.literal
  split
  · exact c.pure _
  · exact c.halt trivial

theorem listId (op : String) (v : Value) : R Nat (Eval.listId op v) (Eval.listId op v) := by
  unfold Eval.listId
  split
  · exact c.pure _
  · exact c.halt rfl

theorem truth (v : Value) : R Bool (Eval.truth v) (Eval.truth v) :=
  c.bind c.heap fun heap => c.lift (v.isTruthy_freshly heap)

theorem wrongCount {α : Type} (expected : Nat) (vs : List Value) :
    R α (Run.lift (Eval.wrongCount expected vs)) (Run.lift (Eval.wrongCount expected vs)) :=
  c.lift (.error trivial)

/-- The call of a native function, which evaluates nothing. -/
theorem native (f : Native) (args : List Value) :
    R (Option Value) (f.call args) (f.call args) := by
  unfold Native.call
  refine c.bind (c.lift (checkArguments_freshly _ _ _)) fun _ => ?_
  rw [Native.perform_eq]
  unfold Native.atOnce
  split
  · exact c.bind (c.writeTo _ _ _) fun _ => c.pure _
  · exact c.bind (c.writeTo _ _ _) fun _ => c.halt trivial
  · exact c.bind c.heap fun heap => c.bind (c.lift (Value.isTruthy_freshly heap _)) fun _ =>
      c.halt trivial
  · exact c.effect _ _

section Parts

variable {ev ev' : Instr → Run (Option Value)} (hev : ∀ i, R (Option Value) (ev i) (ev' i))
include hev

theorem required (op : String) (i : Instr) :
    R Value (Eval.required ev op i) (Eval.required ev' op i) := by
  refine c.bind (hev i) fun r => ?_
  cases r with
  | some v => exact c.pure v
  | none => exact c.halt rfl

theorem values (op : String) (is : List Instr) :
    R (List Value) (Eval.values ev op is) (Eval.values ev' op is) := by
  induction is with
  | nil => exact c.pure []
  | cons i rest ih =>
      exact c.bind (c.required hev op i) fun _ => c.bind ih fun _ => c.pure _

theorem block (is : List Instr) : R Unit (Eval.block ev is) (Eval.block ev' is) := by
  induction is with
  | nil => exact c.pure ()
  | cons i rest ih => exact c.bind (hev i) fun _ => ih

/-! ## Kinds without calls -/

theorem operator (op : String) (i : Instr) {f : Heap → List Value → Except Halt Value}
    (hf : ∀ heap vs, Freshly (f heap vs)) :
    R (Option Value) (Eval.operator ev op i f) (Eval.operator ev' op i f) :=
  c.bind (c.values hev op _) fun vs => c.bind c.heap fun heap =>
    c.bind (c.lift (hf heap vs)) fun _ => c.pure _

theorem unary (op : String) (i : Instr) {f : Heap → Value → Except Halt Value}
    (hf : ∀ heap v, Freshly (f heap v)) :
    R (Option Value) (Eval.unary ev op i f) (Eval.unary ev' op i f) :=
  c.bind (c.firstOperand i) fun _ => c.bind (c.required hev op _) fun v =>
    c.bind c.heap fun heap => c.bind (c.lift (hf heap v)) fun _ => c.pure _

theorem comparison (op : String) (i : Instr) (test : Ordering → Bool) :
    R (Option Value)
      (Eval.comparison ev op i fun v w => (v.compare w).map fun o => Value.ofBool (test o))
      (Eval.comparison ev' op i fun v w => (v.compare w).map fun o => Value.ofBool (test o)) := by
  refine c.operator hev op i fun _ vs => ?_
  split
  · exact (Value.compare_freshly _ _).map
  · exact .error trivial

theorem condition (i : Instr) :
    R (Option Value) (Eval.condition ev i) (Eval.condition ev' i) :=
  c.bind (c.firstOperand i) fun _ => c.bind (c.required hev _ _) fun _ =>
    c.bind (c.truth _) fun _ => c.bind (c.block hev _) fun _ => c.pure _

theorem arraySet (i : Instr) : R (Option Value) (Eval.arraySet ev i) (Eval.arraySet ev' i) := by
  refine c.bind (c.values hev _ _) fun vs => ?_
  split
  · refine c.bind (c.listId _ _) fun id => ?_
    split
    · rw [Run.setItem_eq]
      exact c.bind (c.setItem _ _ _ _) fun _ => c.pure _
    · exact c.halt rfl
  · exact c.wrongCount _ _

theorem arrayPush (i : Instr) :
    R (Option Value) (Eval.arrayPush ev i) (Eval.arrayPush ev' i) := by
  refine c.bind (c.values hev _ _) fun vs => ?_
  split
  · refine c.bind (c.listId _ _) fun id => ?_
    rw [Run.pushItem_eq]
    exact c.bind (c.pushItem _ _ _) fun _ => c.pure _
  · exact c.wrongCount _ _

/-! ## Loops -/

omit hev in
theorem leaveLoop : R Bool (Eval.leaveLoop opts) (Eval.leaveLoop opts') := by
  unfold Eval.leaveLoop
  rw [← c.policy]
  exact c.bind c.returning fun _ => c.pure _

omit hev in
theorem countRounds (name : Name) (step : Int) {body body' : Run Unit} (hb : R Unit body body')
    (rounds : Nat) (first : Int) :
    R Unit (Eval.countRounds opts name step body rounds first)
      (Eval.countRounds opts' name step body' rounds first) := by
  induction rounds generalizing first with
  | zero => exact c.pure ()
  | succ rounds ih =>
      refine c.bind c.leaveLoop fun leave => ?_
      split
      · exact c.pure ()
      · exact c.bind (c.lift (Value.integer_freshly _ _)) fun _ => c.bind (c.bindName _ _) fun _ =>
          c.bind hb fun _ => ih _

omit hev in
theorem itemRounds (name : Name) {body body' : Run Unit} (hb : R Unit body body')
    (items : List Value) :
    R Unit (Eval.itemRounds opts name body items) (Eval.itemRounds opts' name body' items) := by
  induction items with
  | nil => exact c.pure ()
  | cons v rest ih =>
      refine c.bind c.leaveLoop fun leave => ?_
      split
      · exact c.pure ()
      · exact c.bind (c.lift v.copy_freshly) fun _ => c.bind (c.bindName _ _) fun _ =>
          c.bind hb fun _ => ih

omit hev in
theorem whileRounds {test test' : Run Bool} {body body' : Run Unit} (ht : R Bool test test')
    (hb : R Unit body body') {fuel fuel' : Nat} (hf : fuel ≤ fuel') :
    R Unit (Eval.whileRounds test body fuel) (Eval.whileRounds test' body' fuel') := by
  induction fuel generalizing fuel' with
  | zero => exact c.exhausted _
  | succ fuel ih =>
      obtain ⟨fuel', rfl⟩ : ∃ k, fuel' = k + 1 := ⟨fuel' - 1, by omega⟩
      refine c.bind c.returning fun returned => ?_
      split
      · exact c.pure ()
      · refine c.bind ht fun holds => ?_
        split
        · exact c.bind hb fun _ => ih (by omega)
        · exact c.pure ()

theorem countLoop (i : Instr) :
    R (Option Value) (Eval.countLoop opts ev i) (Eval.countLoop opts' ev' i) := by
  refine c.bind (c.values hev _ _) fun vs => ?_
  split
  · split
    · exact c.halt rfl
    · exact c.bind (c.countRounds _ _ (c.block hev _) _ _) fun _ => c.pure _
  · exact c.pure _
  · exact c.wrongCount _ _

theorem eachLoop (i : Instr) :
    R (Option Value) (Eval.eachLoop opts ev i) (Eval.eachLoop opts' ev' i) :=
  c.bind (c.firstOperand i) fun _ => c.bind (c.required hev _ _) fun _ =>
    c.bind (c.listId _ _) fun id => c.bind (c.read fun _ heap _ => (heap.items id).toList) fun _ =>
      c.bind (c.iterating _ (c.itemRounds _ (c.block hev _) _)) fun _ => c.pure _

theorem whileLoop {fuel fuel' : Nat} (hf : fuel ≤ fuel') (i : Instr) :
    R (Option Value) (Eval.whileLoop ev fuel i) (Eval.whileLoop ev' fuel' i) :=
  c.bind (c.firstOperand i) fun _ =>
    c.bind (c.whileRounds (c.bind (c.required hev _ _) fun _ => c.truth _) (c.block hev _) hf)
      fun _ => c.pure _

end Parts

/-! ## Calls -/

section Calls

variable {ev ev' : Evaluator} (hev : ∀ outer i, R (Option Value) (ev outer i) (ev' outer i))
include hev

theorem callClosure (outer : List Frame) (scope : Scope) (f : Closure) (args : List Value) :
    R (Option Value) (Eval.callClosure opts ev outer scope f args)
      (Eval.callClosure opts' ev' outer scope f args) := by
  unfold Eval.callClosure
  split
  · exact c.halt rfl
  · refine c.bind (c.read fun _ _ depth => depth) fun depth => c.deeper ?_ depth
    exact c.bind c.frame fun _ => c.bind (c.lift (calleeOuter_freshly _ _ _)) fun inner =>
      c.bind (c.trace (Eval.isTraceLine_callLine f args scope)) fun _ =>
        c.inFrame _ (c.block (hev inner) _)

theorem callValue (outer : List Frame) (scope : Scope) (callee : Value) (args : List Value) :
    R (Option Value) (Eval.callValue opts ev outer scope callee args)
      (Eval.callValue opts' ev' outer scope callee args) := by
  unfold Eval.callValue
  split
  · exact c.bind (c.trace (Eval.isTraceLine_text _)) fun _ => c.native _ _
  · exact c.callClosure hev _ _ _ _
  · exact c.halt rfl

theorem call (outer : List Frame) (i : Instr) :
    R (Option Value) (Eval.call opts ev outer i) (Eval.call opts' ev' outer i) := by
  unfold Eval.call
  split
  · exact c.halt trivial
  · exact c.bind (c.values (hev outer) _ _) fun _ => c.bind (c.required (hev outer) _ _) fun _ =>
      c.callValue hev _ _ _ _

theorem callNamed (outer : List Frame) (i : Instr) :
    R (Option Value) (Eval.callNamed opts ev outer i) (Eval.callNamed opts' ev' outer i) := by
  refine c.bind (c.values (hev outer) _ _) fun _ => c.bind c.frame fun _ => ?_
  split
  · exact c.callValue hev _ _ _ _
  · exact c.halt rfl

/-! ## All kinds -/

omit hev in
theorem variableValue (outer : List Frame) (name : Name) :
    R (Option Value) (Eval.variableValue outer name) (Eval.variableValue outer name) := by
  refine c.bind c.frame fun _ => ?_
  split
  · exact c.pure _
  · exact c.halt rfl

theorem perform {fuel fuel' : Nat} (hf : fuel ≤ fuel') (outer : List Frame) (i : Instr) :
    R (Option Value) (Eval.perform opts ev fuel outer i)
      (Eval.perform opts' ev' fuel' outer i) := by
  have hin := hev outer
  unfold Eval.perform
  cases i.kind with
  | value => exact c.variableValue _ _
  | assign =>
      exact c.bind (c.firstOperand i) fun _ => c.bind (c.required hin _ _) fun _ =>
        c.bind (c.bindName _ _) fun _ => c.pure _
  | integer =>
      exact c.bind (c.literal i) fun s => c.bind (c.lift (Value.parseInteger_freshly _ s)) fun _ =>
        c.pure _
  | real =>
      exact c.bind (c.literal i) fun s => c.bind (c.lift (Value.parseReal_freshly _ s)) fun _ =>
        c.pure _
  | text => exact c.pure _
  | integerCast => exact c.unary hin _ _ fun _ v => v.castInteger_freshly _
  | realCast => exact c.unary hin _ _ fun _ v => v.castReal_freshly _
  | textCast => exact c.unary hin _ _ fun _ v => v.castText_freshly _
  | array => exact c.bind (c.values hin _ _) fun _ => c.newList _
  | add => exact c.operator hin _ _ fun _ vs => Value.add_freshly vs
  | subtract => exact c.operator hin _ _ fun _ vs => Value.subtract_freshly vs
  | multiply => exact c.operator hin _ _ fun _ vs => Value.multiply_freshly vs
  | divide => exact c.operator hin _ _ fun _ vs => Value.divide_freshly vs
  | and => exact c.operator hin _ _ Value.and_freshly
  | or => exact c.operator hin _ _ Value.or_freshly
  | not => exact c.unary hin _ _ Value.not_freshly
  | equal => exact c.comparison hin _ _ _
  | greater => exact c.comparison hin _ _ _
  | lower => exact c.comparison hin _ _ _
  | call => exact c.call hev _ _
  | callNamed => exact c.callNamed hev _ _
  | giveBack =>
      exact c.bind (c.firstOperand i) fun _ => c.bind (c.required hin _ _) fun _ =>
        c.bind (c.signalReturn _) fun _ => c.pure _
  | ifThen => exact c.condition hin _
  | ifElse => exact c.condition hin _
  | countLoop => exact c.countLoop hin _
  | eachLoop => exact c.eachLoop hin _
  | whileLoop => exact c.whileLoop hin hf _
  | arraySet => exact c.arraySet hin _
  | arrayPush => exact c.arrayPush hin _
  | unknown word => exact c.halt rfl

/-- Evaluators that are related give related evaluations of the next level. -/
theorem step {fuel fuel' : Nat} (hf : fuel ≤ fuel') (outer : List Frame) (i : Instr) :
    R (Option Value) (Eval.step opts ev fuel outer i) (Eval.step opts' ev' fuel' outer i) := by
  refine c.bind c.returning fun returned => ?_
  split
  · exact c.pure _
  · exact c.bind (c.trace (Eval.isTraceLine_text _)) fun _ => c.located _ (c.perform hev hf _ _)

end Calls

/-- The evaluations of an instruction are related. -/
theorem eval {fuel fuel' : Nat} (hf : fuel ≤ fuel') (outer : List Frame) (i : Instr) :
    R (Option Value) (eval opts fuel outer i) (eval opts' fuel' outer i) := by
  induction fuel generalizing fuel' outer i with
  | zero => exact c.exhausted _
  | succ fuel ih =>
      obtain ⟨fuel', rfl⟩ : ∃ k, fuel' = k + 1 := ⟨fuel' - 1, by omega⟩
      exact c.step (fun outer i => ih (by omega) outer i) (by omega) outer i

/-- The calls of a value are related. -/
theorem evalCall {fuel fuel' : Nat} (hf : fuel ≤ fuel') (outer : List Frame) (scope : Scope)
    (callee : Value) (args : List Value) :
    R (Option Value) (Eval.callValue opts (TagScript.eval opts fuel) outer scope callee args)
      (Eval.callValue opts' (TagScript.eval opts' fuel') outer scope callee args) :=
  c.callValue (c.eval hf) outer scope callee args

/-- The runs of a program are related. -/
theorem run {fuel fuel' : Nat} (hf : fuel ≤ fuel') (p : Program) (arguments : List String) :
    R Unit (p.run opts fuel arguments) (p.run opts' fuel' arguments) :=
  c.bind (c.trace (Eval.isTraceLine_text _)) fun _ => c.block (c.eval hf _) _

end Congruence

end TagScript
