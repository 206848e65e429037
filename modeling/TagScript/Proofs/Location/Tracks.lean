import TagScript.Proofs.Eval.Outcome
import TagScript.Proofs.Location.Fresh

set_option autoImplicit false

/-! # Why a run halts

To perform an instruction is to run something that asks an evaluator for the parts. When such a run
halts there are two cases: it halts by itself, and then in a fresh way, or because one evaluation
that it has asked for halted. Which of the two it is, and which evaluation, does not depend on
anything that the evaluator would have done elsewhere: what counts is where it was done, and how
(`Tracks`). This is shown for each way of putting runs together and so for the performance of every
instruction (`Tracks.perform`). -/

namespace TagScript

/-- An evaluation to be made: an instruction, the frames outside the innermost one, and the state in
    which it starts. -/
structure Evaluation where
  outer : List Frame
  instr : Instr
  state : State

/-- The outcome of an evaluation. -/
def Evaluation.outcome (e : Evaluation) (ev : Evaluator) : Outcome State (Option Value) :=
  ev e.outer e.instr e.state

/-- The second evaluator is done wherever the first one is, with the same outcome. -/
def Evaluator.Matches (ev ev' : Evaluator) : Prop :=
  ∀ e r t, Evaluation.outcome e ev = .done r t → e.outcome ev' = .done r t

/-- The run halts by itself: with every matching evaluator it halts in the same way. -/
def HaltsItself {α : Type} (M : Evaluator → Run α) (ev : Evaluator) (s : State) (h : Halt)
    (t : State) : Prop :=
  h.Raised ∧ ∀ ev', ev.Matches ev' → M ev' s = .halted h t

/-- The run halts because the evaluation halts: with every matching evaluator that halts there it
    halts too, in whatever way that evaluation does. -/
def HaltsIn {α : Type} (M : Evaluator → Run α) (ev : Evaluator) (s : State) (h : Halt)
    (e : Evaluation) : Prop :=
  (∃ t, e.outcome ev = .halted h t) ∧
    ∀ ev' k u, ev.Matches ev' → e.outcome ev' = .halted k u → ∃ t, M ev' s = .halted k t

/-- What a run that asks an evaluator owes to the evaluator. -/
structure Tracks {α : Type} (M : Evaluator → Run α) : Prop where
  done {ev ev' : Evaluator} {s t : State} {a : α} :
    ev.Matches ev' → M ev s = .done a t → M ev' s = .done a t
  halted {ev : Evaluator} {s t : State} {h : Halt} :
    M ev s = .halted h t → HaltsItself M ev s h t ∨ ∃ e, HaltsIn M ev s h e

namespace Tracks

variable {α β : Type}

/-! ## Runs that ask for nothing -/

theorem const {m : Run α} (hm : ∀ s h t, m s = .halted h t → h.Raised) : Tracks fun _ => m where
  done _ h := h
  halted h := .inl ⟨hm _ _ _ h, fun _ _ => h⟩

theorem pure (a : α) : Tracks fun _ => (Pure.pure a : Run α) := by
  refine const fun s h t heq => ?_
  cases heq

theorem halt {h : Halt} (hh : h.Fresh) : Tracks fun _ => (Run.halt h : Run α) := by
  refine const fun s k t heq => ?_
  cases heq
  exact .inl hh

theorem lift {e : Except Halt α} (he : Freshly e) : Tracks fun _ => Run.lift e := by
  cases he with
  | ok a => exact pure a
  | error hh => exact halt hh

theorem read (f : State → α) : Tracks fun _ => Run.read f := by
  refine const fun s h t heq => ?_
  cases heq

theorem modify (f : State → State) : Tracks fun _ => Run.modify f := by
  refine const fun s h t heq => ?_
  cases heq

theorem onStore {f : Store → Except Halt (α × Store)}
    (hf : ∀ s h, f s = .error h → h.Raised) : Tracks fun _ => Run.onStore f := by
  refine const fun s h t heq => ?_
  unfold Run.onStore at heq
  split at heq
  · cases heq
  · rename_i hs
    cases heq
    exact hf s.store _ hs

theorem trace (debug : Bool) {line : State → Except Halt String} (hl : ∀ s, Freshly (line s)) :
    Tracks fun _ => Run.trace debug line := by
  refine const fun s h t heq => ?_
  have hfresh := hl s
  cases debug with
  | false => cases heq
  | true =>
      rw [Run.trace_true_apply] at heq
      split at heq
      · cases heq
      · rename_i hs
        cases heq
        exact hfresh.raised hs

/-! ## Runs put together -/

/-- What the evaluator is asked for is what the run owes to it. -/
theorem asked (outer : List Frame) (i : Instr) : Tracks fun ev => ev outer i where
  done hmatch h := hmatch ⟨outer, i, _⟩ _ _ h
  halted {_ s t _} heq := .inr ⟨⟨outer, i, s⟩, ⟨t, heq⟩, fun _ _ u _ hu => ⟨u, hu⟩⟩

theorem bind {M : Evaluator → Run α} {F : Evaluator → α → Run β} (hM : Tracks M)
    (hF : ∀ a, Tracks fun ev => F ev a) : Tracks fun ev => M ev >>= F ev where
  done hmatch h := by
    obtain ⟨a, u, hm, hf⟩ := Run.bind_eq_done h
    exact (Run.bind_done (hM.done hmatch hm)).trans ((hF a).done hmatch hf)
  halted {ev s t h} heq := by
    rw [Run.bind_apply] at heq
    split at heq
    · rename_i a u hm
      rcases (hF a).halted heq with hself | ⟨e, he, hin⟩
      · refine .inl ⟨hself.1, fun ev' hmatch => ?_⟩
        exact (Run.bind_done (hM.done hmatch hm)).trans (hself.2 ev' hmatch)
      · refine .inr ⟨e, he, fun ev' k u' hmatch hk => ?_⟩
        obtain ⟨t', ht'⟩ := hin ev' k u' hmatch hk
        exact ⟨t', (Run.bind_done (hM.done hmatch hm)).trans ht'⟩
    · rename_i hm
      cases heq
      rcases hM.halted hm with hself | ⟨e, he, hin⟩
      · exact .inl ⟨hself.1, fun ev' hmatch => Run.bind_halted (hself.2 ev' hmatch)⟩
      · refine .inr ⟨e, he, fun ev' k u' hmatch hk => ?_⟩
        obtain ⟨t', ht'⟩ := hin ev' k u' hmatch hk
        exact ⟨t', Run.bind_halted ht'⟩
    · cases heq

/-- A run from another state whose outcome is changed in its state and its result alone. -/
theorem wrap {M : Evaluator → Run α} (hM : Tracks M) (enter : State → State)
    (leave : State → State → State) (result : α → State → β) {W : Run α → Run β}
    (hW : ∀ m s, W m s = match m (enter s) with
      | .done a t => .done (result a t) (leave s t)
      | .halted h t => .halted h (leave s t)
      | .outOfFuel => .outOfFuel) : Tracks fun ev => W (M ev) where
  done {ev ev' s t b} hmatch h := by
    rw [hW] at h ⊢
    split at h
    · rename_i hm
      rw [hM.done hmatch hm]
      exact h
    · cases h
    · cases h
  halted {ev s t h} heq := by
    have hhalted : ∀ {ev' k u}, M ev' (enter s) = .halted k u →
        W (M ev') s = .halted k (leave s u) := by
      intro ev' k u hm
      rw [hW, hm]
    rw [hW] at heq
    split at heq
    · cases heq
    · rename_i hm
      cases heq
      rcases hM.halted hm with hself | ⟨e, he, hin⟩
      · exact .inl ⟨hself.1, fun ev' hmatch => hhalted (hself.2 ev' hmatch)⟩
      · refine .inr ⟨e, he, fun ev' k u' hmatch hk => ?_⟩
        obtain ⟨t', ht'⟩ := hin ev' k u' hmatch hk
        exact ⟨leave s t', hhalted ht'⟩
    · cases heq

theorem iterating (id : Nat) {M : Evaluator → Run α} (hM : Tracks M) :
    Tracks fun ev => Run.iterating id (M ev) := by
  refine hM.wrap
    (fun s => { s with store := { s.store with heap := s.store.heap.beginIteration id } })
    (fun _ t => { t with store := { t.store with heap := t.store.heap.endIteration id } })
    (fun a _ => a) fun m s => ?_
  unfold Run.iterating
  cases m _ <;> rfl

theorem inFrame (frame : Frame) {M : Evaluator → Run Unit} (hM : Tracks M) :
    Tracks fun ev => Run.inFrame frame (M ev) := by
  refine hM.wrap (fun s => { s with frame, depth := s.depth + 1 })
    (fun s t => { t with frame := s.frame, depth := t.depth - 1 })
    (fun _ t => t.frame.returned) fun m s => ?_
  unfold Run.inFrame
  cases m _ <;> rfl

/-! ## Parts of instructions -/

section Parts

variable (outer : List Frame)

theorem firstOperand (i : Instr) : Tracks fun _ => Eval.firstOperand i := by
  unfold Eval.firstOperand
  split
  · exact pure _
  · exact halt trivial

theorem literal (i : Instr) : Tracks fun _ => Eval.literal i := by
  unfold Eval.literal
  split
  · exact pure _
  · exact halt trivial

theorem listId (op : String) (v : Value) : Tracks fun _ => Eval.listId op v := by
  unfold Eval.listId
  split
  · exact pure _
  · exact halt rfl

theorem truth (v : Value) : Tracks fun _ => Eval.truth v :=
  (read _).bind fun heap => lift (v.isTruthy_freshly heap)

theorem wrongCount (expected : Nat) (vs : List Value) :
    Tracks fun _ => (Run.lift (Eval.wrongCount expected vs) : Run α) :=
  lift (.error trivial)

/-- A computation whose result is the value of the instruction. -/
theorem given {e : Except Halt Value} (he : Freshly e) :
    Tracks fun _ => Run.lift e >>= fun v => (Pure.pure (some v) : Run (Option Value)) :=
  (lift he).bind fun _ => pure _

theorem required (op : String) (i : Instr) : Tracks fun ev => Eval.required (ev outer) op i := by
  refine (asked outer i).bind fun r => ?_
  cases r with
  | some v => exact pure v
  | none => exact halt rfl

theorem values (op : String) (is : List Instr) :
    Tracks fun ev => Eval.values (ev outer) op is := by
  induction is with
  | nil => exact pure []
  | cons i rest ih => exact (required outer op i).bind fun _ => ih.bind fun _ => pure _

theorem block (is : List Instr) : Tracks fun ev => Eval.block (ev outer) is := by
  induction is with
  | nil => exact pure ()
  | cons i rest ih => exact (asked outer i).bind fun _ => ih

/-! ## Operators -/

theorem operator (op : String) (i : Instr) {f : Heap → List Value → Except Halt Value}
    (hf : ∀ heap vs, Freshly (f heap vs)) : Tracks fun ev => Eval.operator (ev outer) op i f :=
  (values outer op _).bind fun vs => (read _).bind fun heap => given (hf heap vs)

theorem unary (op : String) (i : Instr) {f : Heap → Value → Except Halt Value}
    (hf : ∀ heap v, Freshly (f heap v)) : Tracks fun ev => Eval.unary (ev outer) op i f :=
  (firstOperand i).bind fun e => (required outer op e).bind fun v =>
    (read _).bind fun heap => given (hf heap v)

theorem comparison (op : String) (i : Instr) (test : Ordering → Bool) :
    Tracks fun ev => Eval.comparison (ev outer) op i fun v w =>
      (v.compare w).map fun o => Value.ofBool (test o) := by
  refine operator outer op i fun _ vs => ?_
  split
  · exact (Value.compare_freshly _ _).map
  · exact .error trivial

/-! ## Blocks and lists -/

theorem condition (i : Instr) : Tracks fun ev => Eval.condition (ev outer) i :=
  (firstOperand i).bind fun e => (required outer _ e).bind fun v => (truth v).bind fun _ =>
    (block outer _).bind fun _ => pure _

theorem onHeap {f : Heap → Except Halt Heap} (hf : ∀ h, Freshly (f h)) :
    Tracks fun _ => Run.onHeap f :=
  onStore fun s _ => (hf s.heap).map.raised

theorem setItem (op : String) (id : Nat) (index : Int) (v : Value) :
    Tracks fun _ => Run.setItem op id index v := by
  rw [Run.setItem_eq]
  exact onHeap fun h => h.set_freshly op id index v

theorem pushItem (op : String) (id : Nat) (v : Value) : Tracks fun _ => Run.pushItem op id v := by
  rw [Run.pushItem_eq]
  exact onHeap fun h => h.push_freshly op id v

theorem arraySet (i : Instr) : Tracks fun ev => Eval.arraySet (ev outer) i := by
  refine (values outer _ _).bind fun vs => ?_
  split
  · refine (listId _ _).bind fun id => ?_
    split
    · exact (setItem _ _ _ _).bind fun _ => pure _
    · exact halt rfl
  · exact wrongCount _ _

theorem arrayPush (i : Instr) : Tracks fun ev => Eval.arrayPush (ev outer) i := by
  refine (values outer _ _).bind fun vs => ?_
  split
  · refine (listId _ _).bind fun id => ?_
    exact (pushItem _ _ _).bind fun _ => pure _
  · exact wrongCount _ _

/-! ## Loops -/

variable (opts : Options)

theorem leaveLoop : Tracks fun _ => Eval.leaveLoop opts := (read _).bind fun _ => pure _

theorem countRounds (name : Name) (step : Int) {body : Evaluator → Run Unit} (hb : Tracks body)
    (rounds : Nat) (first : Int) :
    Tracks fun ev => Eval.countRounds opts name step (body ev) rounds first := by
  induction rounds generalizing first with
  | zero => exact pure ()
  | succ rounds ih =>
      refine (leaveLoop opts).bind fun leave => ?_
      split
      · exact pure ()
      · exact (lift (Value.integer_freshly _ _)).bind fun _ => (modify _).bind fun _ =>
          hb.bind fun _ => ih _

theorem itemRounds (name : Name) {body : Evaluator → Run Unit} (hb : Tracks body)
    (items : List Value) : Tracks fun ev => Eval.itemRounds opts name (body ev) items := by
  induction items with
  | nil => exact pure ()
  | cons v rest ih =>
      refine (leaveLoop opts).bind fun leave => ?_
      split
      · exact pure ()
      · exact (lift v.copy_freshly).bind fun _ => (modify _).bind fun _ => hb.bind fun _ => ih

omit opts in
theorem whileRounds {test : Evaluator → Run Bool} {body : Evaluator → Run Unit}
    (ht : Tracks test) (hb : Tracks body) (fuel : Nat) :
    Tracks fun ev => Eval.whileRounds (test ev) (body ev) fuel := by
  induction fuel with
  | zero =>
      refine const fun s h t heq => ?_
      cases heq
  | succ fuel ih =>
      refine (read _).bind fun returned => ?_
      split
      · exact pure ()
      · refine ht.bind fun holds => ?_
        split
        · exact hb.bind fun _ => ih
        · exact pure ()

theorem countLoop (i : Instr) : Tracks fun ev => Eval.countLoop opts (ev outer) i := by
  refine (values outer _ _).bind fun vs => ?_
  split
  · split
    · exact halt rfl
    · exact (countRounds opts _ _ (block outer _) _ _).bind fun _ => pure _
  · exact pure _
  · exact wrongCount _ _

theorem eachLoop (i : Instr) : Tracks fun ev => Eval.eachLoop opts (ev outer) i :=
  (firstOperand i).bind fun e => (required outer _ e).bind fun v => (listId _ v).bind fun id =>
    (read _).bind fun items =>
      (iterating id (itemRounds opts _ (block outer _) items)).bind fun _ => pure _

omit opts in
theorem whileLoop (fuel : Nat) (i : Instr) :
    Tracks fun ev => Eval.whileLoop (ev outer) fuel i :=
  (firstOperand i).bind fun e =>
    (whileRounds ((required outer _ e).bind fun v => truth v) (block outer _) fuel).bind fun _ =>
      pure _

end Parts

/-! ## Calls -/

theorem writeTo (path contents : String) (append : Value) :
    Tracks fun _ => Native.writeTo path contents append :=
  const fun _ _ _ heq => .inl (Native.writeTo_fresh heq)

theorem native (f : Native) (args : List Value) : Tracks fun _ => f.call args := by
  refine (lift (checkArguments_freshly _ _ _)).bind fun _ => ?_
  rw [Native.perform_eq]
  unfold Native.atOnce
  split
  · exact (writeTo _ _ _).bind fun _ => pure _
  · exact (writeTo _ _ _).bind fun _ => halt trivial
  · exact (read _).bind fun heap => (lift (Value.isTruthy_freshly heap _)).bind fun _ =>
      halt trivial
  · exact onStore fun _ _ => Native.effect_raised

section Calls

variable (opts : Options) (outer : List Frame)

theorem callClosure (scope : Scope) (f : Closure) (args : List Value) :
    Tracks fun ev => Eval.callClosure opts ev outer scope f args := by
  unfold Eval.callClosure
  split
  · exact halt rfl
  · refine (read _).bind fun depth => ?_
    split
    · exact halt rfl
    · exact (read _).bind fun frame => (lift (calleeOuter_freshly _ _ _)).bind fun inner =>
        (trace _ fun s => callLine_freshly f args scope s).bind fun _ =>
          inFrame _ (block inner _)

theorem callValue (scope : Scope) (callee : Value) (args : List Value) :
    Tracks fun ev => Eval.callValue opts ev outer scope callee args := by
  unfold Eval.callValue
  split
  · exact (trace _ fun _ => .ok _).bind fun _ => native _ _
  · exact callClosure opts outer _ _ _
  · exact halt rfl

theorem call (i : Instr) : Tracks fun ev => Eval.call opts ev outer i := by
  unfold Eval.call
  split
  · exact halt trivial
  · exact (values outer _ _).bind fun vs => (required outer _ _).bind fun f =>
      callValue opts outer _ f vs

theorem callNamed (i : Instr) : Tracks fun ev => Eval.callNamed opts ev outer i := by
  refine (values outer _ _).bind fun vs => (read _).bind fun frame => ?_
  split
  · exact callValue opts outer _ _ vs
  · exact halt rfl

/-! ## All kinds -/

omit opts in
theorem variableValue (name : Name) : Tracks fun _ => Eval.variableValue outer name := by
  refine (read _).bind fun frame => ?_
  split
  · exact pure _
  · exact halt rfl

/-- To perform an instruction is to run something that owes to the evaluator only its parts. -/
theorem perform (fuel : Nat) (i : Instr) :
    Tracks fun ev => Eval.perform opts ev fuel outer i := by
  unfold Eval.perform
  cases i.kind with
  | value => exact variableValue outer _
  | assign =>
      exact (firstOperand i).bind fun e => (required outer _ e).bind fun _ =>
        (modify _).bind fun _ => pure _
  | integer => exact (literal i).bind fun s => given (Value.parseInteger_freshly _ s)
  | real => exact (literal i).bind fun s => given (Value.parseReal_freshly _ s)
  | text => exact pure _
  | integerCast => exact unary outer _ i fun _ v => v.castInteger_freshly _
  | realCast => exact unary outer _ i fun _ v => v.castReal_freshly _
  | textCast => exact unary outer _ i fun _ v => v.castText_freshly _
  | array =>
      exact (values outer _ _).bind fun vs =>
        onStore (f := fun s => .ok (some (s.newList vs).1, (s.newList vs).2)) fun _ _ => nofun
  | add => exact operator outer _ i fun _ vs => Value.add_freshly vs
  | subtract => exact operator outer _ i fun _ vs => Value.subtract_freshly vs
  | multiply => exact operator outer _ i fun _ vs => Value.multiply_freshly vs
  | divide => exact operator outer _ i fun _ vs => Value.divide_freshly vs
  | and => exact operator outer _ i Value.and_freshly
  | or => exact operator outer _ i Value.or_freshly
  | not => exact unary outer _ i Value.not_freshly
  | equal => exact comparison outer _ i _
  | greater => exact comparison outer _ i _
  | lower => exact comparison outer _ i _
  | call => exact call opts outer i
  | callNamed => exact callNamed opts outer i
  | giveBack =>
      exact (firstOperand i).bind fun e => (required outer _ e).bind fun _ =>
        (modify _).bind fun _ => pure _
  | ifThen => exact condition outer i
  | ifElse => exact condition outer i
  | countLoop => exact countLoop outer opts i
  | eachLoop => exact eachLoop outer opts i
  | whileLoop => exact whileLoop outer fuel i
  | arraySet => exact arraySet outer i
  | arrayPush => exact arrayPush outer i
  | unknown word => exact halt rfl

end Calls

end Tracks

end TagScript
