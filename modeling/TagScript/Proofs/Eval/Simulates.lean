import Mathlib.Data.List.Basic
import TagScript.Proofs.Eval.Simulation
import TagScript.Session

set_option autoImplicit false

/-! # Evaluation is simulated

Under a simulation, the evaluation of an instruction as it is seen simulates the evaluation of the
instruction, provided that it reads no hidden name (`Simulation.eval`). What is asked of the frames
outside the innermost one in the two runs is what evaluation asks of them: the values of names that
are not hidden, and the root (`Simulation.Chain`). With tracing on, instructions have to be seen as
they are, since trace lines show their places. -/

namespace TagScript

namespace Simulation

variable {e : Simulation}

/-- The second run evaluates, as it is seen, what the first one evaluates. -/
abbrev Evaluates (e : Simulation) (m m' : Run (Option Value)) : Prop :=
  e.Simulates e.FreeResult (Option.map e.value) m m'

/-- The second run does, as it is seen, what the first one does. -/
abbrev Does (e : Simulation) (m m' : Run Unit) : Prop := e.Simulates (fun _ => True) id m m'

namespace Simulates

theorem none : e.Evaluates (Pure.pure none) (Pure.pure none) := .pure .none rfl

theorem some {v w : Value} (hv : e.Free v) (hw : w = e.value v) :
    e.Evaluates (Pure.pure (some v)) (Pure.pure (some w)) :=
  .pure (.some hv) (congrArg Option.some hw)

/-- A change and then no value. -/
theorem thenNone {m m' : Run Unit} (hm : e.Does m m') :
    e.Evaluates (m >>= fun _ => Pure.pure Option.none) (m' >>= fun _ => Pure.pure Option.none) :=
  hm.bind fun _ _ => none

end Simulates

/-! ## Native functions -/

theorem writeTo (path contents : String) (append : Value) :
    e.Does (Native.writeTo path contents append)
      (Native.writeTo path contents (e.value append)) := by
  refine .onStore (fun s => ?_) (fun s _ => Freshly.raised ?_) fun s _ t hs hok => ⟨trivial, ?_⟩
  · rw [View.store_heap, e.isTruthy]
    exact except_bind_map fun _ => except_bind_map fun _ => except_bind_map fun _ => rfl
  · exact (append.isTruthy_freshly s.heap).bind fun b => (Native.checkPath_freshly path).bind
      fun _ => (Native.writeText_freshly _ path contents b).bind_pure
  · obtain ⟨_, _, hok⟩ := except_bind_ok hok
    obtain ⟨_, _, hok⟩ := except_bind_ok hok
    obtain ⟨files, _, hok⟩ := except_bind_ok hok
    cases hok
    exact hs

theorem effect (f : Native) {args : List Value} (hargs : e.FreeAll args) :
    e.Evaluates (Run.onStore (f.effect args)) (Run.onStore (f.effect (args.map e.value))) := by
  refine .onStore (View.effect _ f args) (fun _ _ => Native.effect_raised) fun s r t hs hok => ?_
  obtain ⟨hheap, hr⟩ := (Native.does_of_effect hok).each hs hargs
    (fun n _ => .of_inert trivial) (fun _ => .of_inert trivial) fun id _ => .list id
  exact ⟨hr, hheap⟩

theorem truth (v : Value) :
    e.Simulates (fun _ => True) id (Eval.truth v) (Eval.truth (e.value v)) := by
  refine Simulates.heap.bind fun heap _ => ?_
  rw [e.isTruthy]
  exact .lift_same (v.isTruthy_freshly heap)

theorem performWriteFile {args : List Value} (hargs : e.FreeAll args) :
    e.Evaluates (Native.writeFile.atOnce args) (Native.writeFile.atOnce (args.map e.value)) := by
  have hother := effect .writeFile hargs
  by_cases hlength : args.length = 3
  case neg =>
    rwa [Native.atOnce_of_length_ne hlength,
      Native.atOnce_of_length_ne (by rwa [List.length_map])]
  obtain ⟨path, contents, append, rfl⟩ := List.length_eq_three.1 hlength
  have hpath := e.alike path
  have hcontents := e.alike contents
  simp only [List.map_cons, List.map_nil] at hother ⊢
  generalize e.value path = path' at hpath hother ⊢
  generalize e.value contents = contents' at hcontents hother ⊢
  cases hpath with
  | text path =>
      cases hcontents with
      | text contents => exact (writeTo path contents append).thenNone
      | missingText => exact (writeTo path "" append).bind fun _ _ => .halt trivial
      | _ => exact hother
  | missingText => exact (truth append).bind fun _ _ => .halt trivial
  | _ => exact hother

theorem native (f : Native) {args : List Value} (hargs : e.FreeAll args) :
    e.Evaluates (f.call args) (f.call (args.map e.value)) := by
  have hcheck := Value.checkArguments_map e.alike f.name args f.signature
  unfold Native.call
  rw [hcheck]
  refine (Simulates.lift_same (checkArguments_freshly _ args _)).bind fun _ _ => ?_
  rw [Native.perform_eq, Native.perform_eq]
  cases f with
  | writeFile => exact performWriteFile hargs
  | _ => exact effect _ hargs

/-! ## Parts of instructions -/

theorem firstOperand {i : Instr} (hi : e.FreeIn [i]) :
    e.Simulates (fun j => e.FreeIn [j]) e.instr (Eval.firstOperand i)
      (Eval.firstOperand (e.instr i)) := by
  have hoperands := hi.operands
  unfold Eval.firstOperand
  rw [e.operands_instr]
  cases hos : i.operands with
  | nil => exact .halt trivial
  | cons j rest =>
      rw [hos] at hoperands
      have hj : e.FreeIn [j] := hoperands.mem List.mem_cons_self
      exact fun s hs => ⟨rfl, hj, hs⟩

theorem literal (i : Instr) :
    e.Simulates (fun _ => True) id (Eval.literal i) (Eval.literal (e.instr i)) := by
  unfold Eval.literal
  rw [e.value_instr]
  cases i.value with
  | none => exact .halt trivial
  | some s => exact .pure trivial rfl

theorem listId (op : String) (v : Value) :
    e.Simulates (fun _ => True) e.number (Eval.listId op v) (Eval.listId op (e.value v)) := by
  have hv := e.alike v
  generalize e.value v = w at hv ⊢
  cases hv with
  | list id => exact .pure trivial rfl
  | _ => exact .halt rfl

theorem wrongCount (expected : Nat) (vs : List Value) :
    e.Evaluates (Run.lift (Eval.wrongCount expected vs))
      (Run.lift (Eval.wrongCount expected (vs.map e.value))) := by
  unfold Eval.wrongCount
  rw [List.length_map]
  exact .halt trivial

section Parts

variable {ev ev' : Instr → Run (Option Value)}
  (hev : ∀ i, e.FreeIn [i] → e.Evaluates (ev i) (ev' (e.instr i)))
include hev

theorem required (op : String) {i : Instr} (hi : e.FreeIn [i]) :
    e.Simulates e.Free e.value (Eval.required ev op i) (Eval.required ev' op (e.instr i)) := by
  refine (hev i hi).bind fun r hr => ?_
  cases r with
  | none => exact .halt rfl
  | some v => exact .pure (hr v rfl) rfl

theorem values (op : String) {is : List Instr} (his : e.FreeIn is) :
    e.Simulates e.FreeAll (List.map e.value) (Eval.values ev op is)
      (Eval.values ev' op (is.map e.instr)) := by
  induction is with
  | nil => exact .pure nofun rfl
  | cons i rest ih =>
      refine (required hev op (his.mem List.mem_cons_self)).bind fun v hv => ?_
      refine (ih (his.subset (List.subset_cons_self i rest))).bind fun vs hvs => ?_
      exact .pure (List.forall_mem_cons.2 ⟨hv, hvs⟩) rfl

/-- The values of the operands of an instruction. -/
theorem operandValues (op : String) {i : Instr} (hi : e.FreeIn [i]) :
    e.Simulates e.FreeAll (List.map e.value) (Eval.values ev op i.operands)
      (Eval.values ev' op (e.instr i).operands) := by
  rw [e.operands_instr]
  exact values hev op hi.operands

theorem block {is : List Instr} (his : e.FreeIn is) :
    e.Does (Eval.block ev is) (Eval.block ev' (is.map e.instr)) := by
  induction is with
  | nil => exact .pure trivial rfl
  | cons i rest ih =>
      exact (hev i (his.mem List.mem_cons_self)).bind fun _ _ =>
        ih (his.subset (List.subset_cons_self i rest))

theorem bodyBlock {i : Instr} (hi : e.FreeIn [i]) :
    e.Does (Eval.block ev i.body) (Eval.block ev' (e.instr i).body) := by
  rw [e.body_instr]
  exact block hev hi.body

/-! ## Kinds without calls -/

theorem operator (op : String) {i : Instr} (hi : e.FreeIn [i])
    {f : Heap → List Value → Except Halt Value}
    (hf : ∀ h vs, f (e.heap h) (vs.map e.value) = f h vs) (hfresh : ∀ h vs, Freshly (f h vs))
    (hinert : ∀ h vs v, f h vs = .ok v → v.Inert) :
    e.Evaluates (Eval.operator ev op i f) (Eval.operator ev' op (e.instr i) f) := by
  refine (operandValues hev op hi).bind fun vs _ => Simulates.heap.bind fun heap _ => ?_
  rw [hf]
  exact (Simulates.lift_inert (hfresh heap vs) (hinert heap vs)).bind fun v hv => .some hv rfl

theorem unary (op : String) {i : Instr} (hi : e.FreeIn [i])
    {f : Heap → Value → Except Halt Value} (hf : ∀ h v, f (e.heap h) (e.value v) = f h v)
    (hfresh : ∀ h v, Freshly (f h v)) (hinert : ∀ h v r, f h v = .ok r → r.Inert) :
    e.Evaluates (Eval.unary ev op i f) (Eval.unary ev' op (e.instr i) f) := by
  refine (firstOperand hi).bind fun j hj => (required hev op hj).bind fun v _ =>
    Simulates.heap.bind fun heap _ => ?_
  rw [hf]
  exact (Simulates.lift_inert (hfresh heap v) (hinert heap v)).bind fun r hr => .some hr rfl

theorem comparison (op : String) {i : Instr} (hi : e.FreeIn [i])
    {f : Value → Value → Except Halt Value} (hf : ∀ v w, f (e.value v) (e.value w) = f v w)
    (hfresh : ∀ v w, Freshly (f v w)) (hinert : ∀ v w r, f v w = .ok r → r.Inert) :
    e.Evaluates (Eval.comparison ev op i f) (Eval.comparison ev' op (e.instr i) f) := by
  refine operator hev op hi (fun _ vs => ?_) (fun _ vs => ?_) fun _ vs r hr => ?_
  · match vs with
    | [v, w] => exact hf v w
    | [] | [_] | _ :: _ :: _ :: _ => simp [Eval.wrongCount]
  · match vs with
    | [v, w] => exact hfresh v w
    | [] | [_] | _ :: _ :: _ :: _ => exact .error trivial
  · match vs with
    | [v, w] => exact hinert v w r hr
    | [] | [_] | _ :: _ :: _ :: _ => cases hr

theorem condition {i : Instr} (hi : e.FreeIn [i]) :
    e.Evaluates (Eval.condition ev i) (Eval.condition ev' (e.instr i)) := by
  refine (firstOperand hi).bind fun j hj => (required hev _ hj).bind fun v _ =>
    (truth v).bind fun holds _ => ?_
  cases holds with
  | true => exact (bodyBlock hev hi).thenNone
  | false =>
      have helse := block hev hi.orelse
      rw [← e.orelse_instr] at helse
      exact helse.thenNone

omit hev in
theorem setItem (op : String) (id : Nat) (n : Int) {v : Value} (hv : e.Free v) :
    e.Does (Run.setItem op id n v) (Run.setItem op (e.number id) n (e.value v)) := by
  rw [Run.setItem_eq, Run.setItem_eq]
  exact .onHeap (fun h => View.set _ h op id n v) (fun h => h.set_freshly op id n v)
    fun h k hh hk => (hh.set hv hk).1

omit hev in
theorem pushItem (op : String) (id : Nat) {v : Value} (hv : e.Free v) :
    e.Does (Run.pushItem op id v) (Run.pushItem op (e.number id) (e.value v)) := by
  rw [Run.pushItem_eq, Run.pushItem_eq]
  exact .onHeap (fun h => View.push _ h op id v) (fun h => h.push_freshly op id v)
    fun h k hh hk => (hh.push hv hk).1

omit hev in
theorem newList {vs : List Value} (hvs : e.FreeAll vs) :
    e.Evaluates (Run.change (·.newList vs) >>= fun v => pure (some v))
      (Run.change (·.newList (vs.map e.value)) >>= fun v => pure (some v)) := by
  rw [Run.change_bind_pure, Run.change_bind_pure]
  refine .onStore (fun s => ?_) (fun _ _ => nofun) fun s r t hs h => ?_
  · rw [View.newList]
    rfl
  · cases h
    exact ⟨.some (.list _), hs.alloc hvs⟩

theorem arraySet {i : Instr} (hi : e.FreeIn [i]) :
    e.Evaluates (Eval.arraySet ev i) (Eval.arraySet ev' (e.instr i)) := by
  refine (operandValues hev _ hi).bind fun vs hvs => ?_
  match vs, hvs, wrongCount (e := e) 3 vs with
  | [array, index, v], hvs, _ =>
      refine (listId _ array).bind fun id _ => ?_
      have hv : e.Free v := hvs v (by simp)
      have hindex := e.alike index
      generalize e.value index = index' at hindex ⊢
      cases hindex with
      | int n =>
          exact (setItem _ id n hv).thenNone
      | _ => exact .halt rfl
  | [], _, hwrong | [_], _, hwrong | [_, _], _, hwrong | _ :: _ :: _ :: _ :: _, _, hwrong =>
      exact hwrong

theorem arrayPush {i : Instr} (hi : e.FreeIn [i]) :
    e.Evaluates (Eval.arrayPush ev i) (Eval.arrayPush ev' (e.instr i)) := by
  refine (operandValues hev _ hi).bind fun vs hvs => ?_
  match vs, hvs, wrongCount (e := e) 2 vs with
  | [array, v], hvs, _ =>
      have hv : e.Free v := hvs v (by simp)
      exact (listId _ array).bind fun id _ => (pushItem _ id hv).thenNone
  | [], _, hwrong | [_], _, hwrong | _ :: _ :: _ :: _, _, hwrong => exact hwrong

/-! ## Loops -/

omit hev in
theorem leaveLoop (opts : Options) :
    e.Simulates (fun _ => True) id (Eval.leaveLoop opts) (Eval.leaveLoop opts) :=
  Simulates.returning.bind fun _ _ => .pure trivial rfl

omit hev in
theorem countRounds (opts : Options) (name : Name) (step : Int) {body body' : Run Unit}
    (hbody : e.Does body body') (rounds : Nat) (first : Int) :
    e.Does (Eval.countRounds opts name step body rounds first)
      (Eval.countRounds opts name step body' rounds first) := by
  induction rounds generalizing first with
  | zero => exact .pure trivial rfl
  | succ rounds ih =>
      refine (leaveLoop opts).bind fun leave _ => ?_
      cases leave with
      | true => exact .pure trivial rfl
      | false =>
          have hvalue := Simulates.lift_inert (e := e) (Value.integer_freshly "for" first)
            fun _ h => (Value.integer_scalar h).inert
          exact hvalue.bind fun v hv => (Simulates.bindName name hv).bind fun _ _ =>
            hbody.bind fun _ _ => ih (first + step)

omit hev in
theorem itemRounds (opts : Options) (name : Name) {body body' : Run Unit}
    (hbody : e.Does body body') {items : List Value} (hitems : e.FreeAll items) :
    e.Does (Eval.itemRounds opts name body items)
      (Eval.itemRounds opts name body' (items.map e.value)) := by
  induction items with
  | nil => exact .pure trivial rfl
  | cons v rest ih =>
      obtain ⟨hv, hrest⟩ := List.forall_mem_cons.1 hitems
      refine (leaveLoop opts).bind fun leave _ => ?_
      cases leave with
      | true => exact .pure trivial rfl
      | false =>
          have hcopy : ∀ w, v.copy = .ok w → e.Free w := by
            intro w hw
            cases v <;> cases hw <;> exact hv
          exact (Simulates.lift hcopy v.copy_freshly (View.copy _ v)).bind fun w hw =>
            (Simulates.bindName name hw).bind fun _ _ => hbody.bind fun _ _ => ih hrest

omit hev in
theorem whileRounds {test test' : Run Bool} {body body' : Run Unit}
    (htest : e.Simulates (fun _ => True) id test test') (hbody : e.Does body body') (fuel : Nat) :
    e.Does (Eval.whileRounds test body fuel) (Eval.whileRounds test' body' fuel) := by
  induction fuel with
  | zero => exact .exhausted
  | succ fuel ih =>
      refine Simulates.returning.bind fun returned _ => ?_
      cases returned with
      | true => exact .pure trivial rfl
      | false =>
          refine htest.bind fun holds _ => ?_
          cases holds with
          | true => exact hbody.bind fun _ _ => ih
          | false => exact .pure trivial rfl

theorem countLoop (opts : Options) {i : Instr} (hi : e.FreeIn [i]) :
    e.Evaluates (Eval.countLoop opts ev i) (Eval.countLoop opts ev' (e.instr i)) := by
  refine (operandValues hev _ hi).bind fun vs _ => ?_
  by_cases hlength : vs.length = 3
  case neg =>
    -- neither list of bounds has the form that the loop asks for
    have hwrong := wrongCount (e := e) 3 vs
    have hlength' : (vs.map e.value).length ≠ 3 := by rwa [List.length_map]
    generalize vs.map e.value = vs' at hwrong hlength' ⊢
    split <;> try exact absurd rfl hlength
    split <;> first | exact hwrong | exact absurd rfl hlength'
  obtain ⟨a, b, c, rfl⟩ := List.length_eq_three.1 hlength
  have ha := e.alike a
  have hb := e.alike b
  have hc := e.alike c
  simp only [List.map_cons, List.map_nil]
  generalize e.value a = a' at ha ⊢
  generalize e.value b = b' at hb ⊢
  generalize e.value c = c' at hc ⊢
  cases ha with
  | int first =>
      cases hb with
      | int last =>
          cases hc with
          | int step =>
              dsimp only
              split
              · exact .halt rfl
              · rw [e.value_instr]
                exact (countRounds opts i.value step (bodyBlock hev hi) _ first).thenNone
          | _ => exact .none
      | _ => exact .none
  | _ => exact .none

theorem eachLoop (opts : Options) {i : Instr} (hi : e.FreeIn [i]) :
    e.Evaluates (Eval.eachLoop opts ev i) (Eval.eachLoop opts ev' (e.instr i)) := by
  refine (firstOperand hi).bind fun j hj => (required hev _ hj).bind fun v _ =>
    (listId _ v).bind fun id _ => ?_
  have hitems : e.Simulates e.FreeAll (List.map e.value)
      (Run.read fun s => (s.store.heap.items id).toList)
      (Run.read fun s => (s.store.heap.items (e.number id)).toList) := by
    refine .read (fun s => ?_) fun s hs v hv => hs.heap id v (Array.mem_toList_iff.1 hv)
    rw [state_store, View.store_heap, View.items, Array.toList_map]
  rw [e.value_instr]
  exact hitems.bind fun items hfree =>
    (Simulates.iterating id (itemRounds opts i.value (bodyBlock hev hi) hfree)).thenNone

theorem whileLoop (fuel : Nat) {i : Instr} (hi : e.FreeIn [i]) :
    e.Evaluates (Eval.whileLoop ev fuel i) (Eval.whileLoop ev' fuel (e.instr i)) := by
  refine (firstOperand hi).bind fun j hj => ?_
  have htest := (required hev "while" hj).bind fun v _ => truth v
  exact (whileRounds htest (bodyBlock hev hi) fuel).thenNone

end Parts

/-! ## Environments -/

/-- The frames outside the innermost one, in the first run and in the second. -/
structure Chain (e : Simulation) (outer outer' : List Frame) : Prop where
  free : ∀ f ∈ outer, ∀ name v, f.bindings.get? name = some v → e.Free v
  lookup? : ∀ name, ¬ e.hidden name →
    Frame.lookup? name outer' = (Frame.lookup? name outer).map e.value
  root : ∀ f, (e.frame f).root outer' = e.frame (f.root outer)

namespace Chain

variable {outer outer' : List Frame}

/-- Frames that are seen one by one. -/
theorem map (h : ∀ f ∈ outer, ∀ name v, f.bindings.get? name = some v → e.Free v) :
    e.Chain outer (outer.map e.frame) where
  free := h
  lookup? name _ := Frame.lookup?_map e.value name outer
  root f := f.root_map e.value outer

/-- What is right outside a function that was called as a value. -/
theorem cons (h : e.Chain outer outer') {f : Frame} (hf : f.Each e.Free) :
    e.Chain (f :: outer) (e.frame f :: outer') where
  free := List.forall_mem_cons.2 ⟨hf.bindings, h.free⟩
  lookup? name hname := by
    simp only [Frame.lookup?, h.lookup? name hname, get?_frame]
    cases f.bindings.get? name <;> rfl
  root _ := h.root f

/-- The root holds free values alone. -/
theorem free_root (h : e.Chain outer outer') {f : Frame} (hf : f.Each e.Free) :
    ∀ name v, (f.root outer).bindings.get? name = some v → e.Free v :=
  (h.cons hf).free _ (f.root_mem outer)

end Chain

theorem variableValue {outer outer' : List Frame} (hchain : e.Chain outer outer') {name : Name}
    (hname : ¬ e.hidden name) :
    e.Evaluates (Eval.variableValue outer name) (Eval.variableValue outer' name) := by
  refine Simulates.frame.bind fun frame hframe => ?_
  have hinner := hchain.cons hframe
  rw [hinner.lookup? name hname, View.present]
  cases hv : (Frame.lookup? name (frame :: outer)).bind Value.present? with
  | none => exact .halt rfl
  | some v =>
      obtain ⟨w, hw, hpresent⟩ := Option.bind_eq_some_iff.1 hv
      obtain ⟨f, hf, hget⟩ := Frame.exists_of_lookup? hw
      rw [Value.eq_of_present? hpresent]
      exact .some (hinner.free f hf name w hget) rfl

/-! ## Calls -/

theorem callLine (f : Closure) (args : List Value) (scope : Scope) (s : State) :
    Eval.callLine { f with body := f.body.map e.instr } (args.map e.value) scope (e.state s)
      = Eval.callLine f args scope s := by
  have hformat := View.formatAll e.toView (fun v => View.format _ s.store.heap v true) args
  unfold Eval.callLine
  rw [state_store, View.store_heap]
  exact congrArg _ hformat

section Calls

variable {opts : Options} (hdebug : opts.debug = true → ∀ i, e.instr i = i) {ev ev' : Evaluator}
  (hev : ∀ {outer outer'}, e.Chain outer outer' → ∀ i, e.FreeIn [i] →
    e.Evaluates (ev outer i) (ev' outer' (e.instr i)))

include hev in
/-- The body of a function in a frame of its own. -/
theorem body {inner inner' : List Frame} (hinner : e.Chain inner inner') {f : Closure}
    (hf : e.FreeIn f.body) {args : List Value} (hargs : e.FreeAll args) :
    e.Evaluates
      (Run.inFrame (Frame.ofArguments f.params args) (Eval.block (ev inner) f.body))
      (Run.inFrame (Frame.ofArguments f.params (args.map e.value))
        (Eval.block (ev' inner') (f.body.map e.instr))) := by
  rw [Frame.ofArguments_map]
  exact .inFrame (.ofArguments hargs) (block (hev hinner) hf)

include hev in
theorem callClosure {outer outer' : List Frame} (hchain : e.Chain outer outer') (scope : Scope)
    {f : Closure} (hf : e.FreeIn f.body) {args : List Value} (hargs : e.FreeAll args) :
    e.Evaluates (Eval.callClosure opts ev outer scope f args)
      (Eval.callClosure opts ev' outer' scope { f with body := f.body.map e.instr }
        (args.map e.value)) := by
  have hline : e.Does (Run.trace opts.debug (Eval.callLine f args scope))
      (Run.trace opts.debug
        (Eval.callLine { f with body := f.body.map e.instr } (args.map e.value) scope)) :=
    .trace fun _ s => ⟨callLine f args scope s, callLine_freshly f args scope s⟩
  unfold Eval.callClosure
  rw [List.length_map]
  split
  · exact .halt rfl
  · refine Simulates.depth.bind fun depth _ => ?_
    rw [id]
    split
    · exact .halt rfl
    · refine Simulates.frame.bind fun frame hframe => ?_
      cases scope with
      | lexical => exact hline.bind fun _ _ => body hev (hchain.cons hframe) hf hargs
      | global =>
          have hroot : e.Chain [frame.root outer] [e.frame (frame.root outer)] :=
            .map (List.forall_mem_singleton.2 (hchain.free_root hframe))
          unfold Eval.calleeOuter
          rw [hchain.root]
          exact hline.bind fun _ _ => body hev hroot hf hargs
      | unknown word => exact .halt trivial

include hev in
theorem callValue {outer outer' : List Frame} (hchain : e.Chain outer outer') (scope : Scope)
    {callee : Value} (hcallee : e.Free callee) {args : List Value} (hargs : e.FreeAll args) :
    e.Evaluates (Eval.callValue opts ev outer scope callee args)
      (Eval.callValue opts ev' outer' scope (e.value callee) (args.map e.value)) := by
  have hsame := e.alike callee
  generalize hw : e.value callee = w at hsame ⊢
  cases hsame with
  | native f =>
      refine (Simulates.trace fun _ s => ⟨?_, .ok _⟩).bind fun _ _ => native f hargs
      rw [List.length_map]
  | closure f g =>
      rw [e.value_closure] at hw
      cases hw
      exact callClosure hev hchain scope (hcallee f rfl) hargs
  | _ => exact .halt rfl

include hev in
theorem call {outer outer' : List Frame} (hchain : e.Chain outer outer') {i : Instr}
    (hi : e.FreeIn [i]) :
    e.Evaluates (Eval.call opts ev outer i) (Eval.call opts ev' outer' (e.instr i)) := by
  have hoperands := hi.operands
  unfold Eval.call
  rw [e.operands_instr]
  cases hos : i.operands with
  | nil => exact .halt trivial
  | cons callee args =>
      rw [hos] at hoperands
      have hargs : e.FreeIn args := hoperands.subset (List.subset_cons_self callee args)
      exact (values (hev hchain) _ hargs).bind fun vs hvs =>
        (required (hev hchain) _ (hoperands.mem List.mem_cons_self)).bind fun f hf =>
          callValue hev hchain _ hf hvs

include hev in
theorem callNamed {outer outer' : List Frame} (hchain : e.Chain outer outer') {i : Instr}
    (hi : e.FreeIn [i]) :
    e.Evaluates (Eval.callNamed opts ev outer i) (Eval.callNamed opts ev' outer' (e.instr i)) := by
  refine (operandValues (hev hchain) _ hi).bind fun vs hvs =>
    Simulates.frame.bind fun frame hframe => ?_
  rw [hchain.root, e.value_instr, get?_frame, View.present]
  cases hv : ((frame.root outer).bindings.get? i.value).bind Value.present? with
  | none => exact .halt rfl
  | some v =>
      obtain ⟨w, hw, hpresent⟩ := Option.bind_eq_some_iff.1 hv
      rw [Value.eq_of_present? hpresent]
      exact callValue hev hchain _ (hchain.free_root hframe i.value w hw) hvs

/-! ## All kinds -/

include hev in
theorem perform (fuel : Nat) {outer outer' : List Frame} (hchain : e.Chain outer outer')
    {i : Instr} (hi : e.FreeIn [i]) :
    e.Evaluates (Eval.perform opts ev fuel outer i)
      (Eval.perform opts ev' fuel outer' (e.instr i)) := by
  have hin := hev hchain
  unfold Eval.perform
  rw [e.kind_instr]
  cases hkind : i.kind with
  | value =>
      rw [e.value_instr]
      exact variableValue hchain (hi.self hkind)
  | assign =>
      rw [e.value_instr]
      exact (firstOperand hi).bind fun j hj => (required hin _ hj).bind fun v hv =>
        (Simulates.bindName i.value hv).thenNone
  | integer =>
      refine (literal i).bind fun s _ => ?_
      have hvalue := Simulates.lift_inert (e := e) (Value.parseInteger_freshly "integer" s)
        fun _ h => (Value.parseInteger_scalar h).inert
      exact hvalue.bind fun v hv => .some hv rfl
  | real =>
      refine (literal i).bind fun s _ => ?_
      have hvalue := Simulates.lift_inert (e := e) (Value.parseReal_freshly "float" s)
        fun _ h => (Value.parseReal_scalar h).inert
      exact hvalue.bind fun v hv => .some hv rfl
  | text =>
      rw [e.value_instr]
      cases i.value with
      | none => exact .some (.of_inert trivial) e.value_missingText.symm
      | some s => exact .some (.of_inert trivial) (e.value_text s).symm
  | integerCast =>
      exact unary hin _ hi (fun _ v => (e.alike v).castInteger_eq _)
        (fun _ => Value.castInteger_freshly _) fun _ _ _ => Value.castInteger_inert
  | realCast =>
      exact unary hin _ hi (fun _ v => (e.alike v).castReal_eq _)
        (fun _ => Value.castReal_freshly _) fun _ _ _ h => (Value.castReal_scalar h).inert
  | textCast =>
      exact unary hin _ hi (fun _ v => (e.alike v).castText_eq _)
        (fun _ => Value.castText_freshly _) fun _ _ _ h => (Value.castText_scalar h).inert
  | array => exact (operandValues hin _ hi).bind fun _ hvs => newList hvs
  | add =>
      exact operator hin _ hi (fun _ => Value.add_map e.alike) (fun _ => Value.add_freshly)
        fun _ _ _ h => (Value.add_scalar h).inert
  | subtract =>
      exact operator hin _ hi (fun _ => Value.subtract_map e.alike)
        (fun _ => Value.subtract_freshly) fun _ _ _ h => (Value.subtract_scalar h).inert
  | multiply =>
      exact operator hin _ hi (fun _ => Value.multiply_map e.alike)
        (fun _ => Value.multiply_freshly) fun _ _ _ h => (Value.multiply_scalar h).inert
  | divide =>
      exact operator hin _ hi (fun _ => Value.divide_map e.alike)
        (fun _ => Value.divide_freshly) fun _ _ _ h => (Value.divide_scalar h).inert
  | and =>
      exact operator hin _ hi (View.and _) Value.and_freshly fun _ _ _ h =>
        (Value.map_ofBool_scalar h).inert
  | or =>
      exact operator hin _ hi (View.or _) Value.or_freshly fun _ _ _ h =>
        (Value.map_ofBool_scalar h).inert
  | not =>
      exact unary hin _ hi (View.not _) Value.not_freshly fun _ _ _ h =>
        (Value.map_ofBool_scalar h).inert
  | equal =>
      exact comparison hin _ hi (fun v w => (e.alike v).equal_eq (e.alike w))
        (fun v w => (v.compare_freshly w).map) fun _ _ _ h => (Value.map_ofBool_scalar h).inert
  | greater =>
      exact comparison hin _ hi (fun v w => (e.alike v).greater_eq (e.alike w))
        (fun v w => (v.compare_freshly w).map) fun _ _ _ h => (Value.map_ofBool_scalar h).inert
  | lower =>
      exact comparison hin _ hi (fun v w => (e.alike v).lower_eq (e.alike w))
        (fun v w => (v.compare_freshly w).map) fun _ _ _ h => (Value.map_ofBool_scalar h).inert
  | call => exact call hev hchain hi
  | callNamed => exact callNamed hev hchain hi
  | giveBack =>
      exact (firstOperand hi).bind fun j hj => (required hin _ hj).bind fun v hv =>
        (Simulates.signalReturn hv).thenNone
  | ifThen => exact condition hin hi
  | ifElse => exact condition hin hi
  | countLoop => exact countLoop hin opts hi
  | eachLoop => exact eachLoop hin opts hi
  | whileLoop => exact whileLoop hin fuel hi
  | arraySet => exact arraySet hin hi
  | arrayPush => exact arrayPush hin hi
  | unknown word => exact .halt rfl

include hdebug hev in
/-- One level of evaluation. -/
theorem step (fuel : Nat) {outer outer' : List Frame} (hchain : e.Chain outer outer') {i : Instr}
    (hi : e.FreeIn [i]) :
    e.Evaluates (Eval.step opts ev fuel outer i)
      (Eval.step opts ev' fuel outer' (e.instr i)) := by
  refine Simulates.returning.bind fun returned _ => ?_
  cases returned with
  | true => exact .none
  | false =>
      refine (Simulates.trace fun h _ => ⟨by rw [hdebug h], .ok _⟩).bind fun _ _ => ?_
      rw [e.span_instr]
      exact .located i.span (perform hev fuel hchain hi)

end Calls

/-- Evaluation is simulated, by induction on the fuel. -/
theorem eval (opts : Options) (hdebug : opts.debug = true → ∀ i, e.instr i = i) (fuel : Nat)
    {outer outer' : List Frame} (hchain : e.Chain outer outer') (i : Instr)
    (hi : e.FreeIn [i]) :
    e.Evaluates (TagScript.eval opts fuel outer i)
      (TagScript.eval opts fuel outer' (e.instr i)) := by
  induction fuel generalizing outer outer' i with
  | zero => exact .exhausted
  | succ fuel ih => exact step hdebug (fun hchain i hi => ih hchain i hi) fuel hchain hi

/-- The run of a program, which starts at its own root, when no names are hidden. -/
theorem run (hopen : ∀ name, ¬ e.hidden name) {opts : Options}
    (hdebug : opts.debug = true → ∀ i, e.instr i = i) (fuel : Nat) {p p' : Program}
    {arguments : List String} (hlength : p'.functions.length = p.functions.length)
    (hroot : Frame.ofProgram p' arguments = e.frame (Frame.ofProgram p arguments))
    (hmain : p'.main = p.main.map e.instr) :
    e.Does (p.run opts fuel arguments) (p'.run opts fuel arguments) := by
  have hchain : e.Chain [Frame.ofProgram p arguments] [Frame.ofProgram p' arguments] := by
    rw [hroot]
    exact .map fun _ _ _ v _ => free_of_open hopen v
  have hline : p'.runLine = p.runLine := by
    unfold Program.runLine
    rw [hlength]
  unfold Program.run
  rw [hline, hmain]
  exact (Simulates.trace fun _ _ => ⟨rfl, .ok _⟩).bind fun _ _ =>
    block (eval opts hdebug fuel hchain) (freeIn_of_open hopen p.main)

end Simulation

end TagScript
