import TagScript.Proofs.Safety.Basic

set_option autoImplicit false

/-! # Evaluation of shaped instructions

Evaluation is safe part by part (`Watch.perform`), and then by induction on the fuel
(`Watch.eval_safe`). The shape of an instruction is used where evaluation takes it apart: a payload
that is read is there, and the values of the operands are as many as their kind asks for. Callable
values are functions of the program, so that what a call evaluates is shaped again. -/

namespace TagScript.Watch

variable {w : Watch} {n : Nat}

/-! ## Native functions -/

theorem checkTypes_meets (name : String) (position : Nat) (args : List Value)
    (expected : List (Option String)) :
    Meets (fun _ => True) (checkTypes name position args expected) := by
  induction args generalizing position expected with
  | nil => exact trivial
  | cons v args ih =>
      cases expected with
      | nil => exact trivial
      | cons type rest =>
          unfold checkTypes
          split
          · exact ih _ _
          · split
            · exact ih _ _
            · exact trivial

theorem checkArguments_meets (name : String) (args : List Value)
    (expected : List (Option String)) :
    Meets (fun _ => True) (checkArguments name args expected) := by
  unfold checkArguments
  split
  · exact checkTypes_meets _ _ _ _
  · exact trivial

theorem checkPath_meets (path : String) : Meets (fun _ => True) (Native.checkPath path) := by
  unfold Native.checkPath
  split <;> exact trivial

theorem readText_meets (files : Files) (path : String) :
    Meets (fun _ => True) (Native.readText files path) := by
  unfold Native.readText
  split
  · exact trivial
  · split <;> exact trivial

theorem writeText_meets (files : Files) (path contents : String) (append : Bool) :
    Meets (fun _ => True) (Native.writeText files path contents append) := by
  refine Meets.map (P := fun _ => True) ?_ fun _ _ => trivial
  unfold Native.openable
  split <;> exact trivial

section Heap

variable (h : Heap) (op : String) (id : Nat)

theorem checkMutable_meets : Meets (fun _ => True) (h.checkMutable op id) := by
  unfold Heap.checkMutable
  split <;> exact trivial

theorem position_meets (index : Int) : Meets (fun _ => True) (h.position op id index) := by
  unfold Heap.position
  split <;> exact trivial

theorem set_meets (index : Int) (v : Value) : Meets (fun _ => True) (h.set op id index v) :=
  (checkMutable_meets h op id).bind fun _ _ =>
    (position_meets h op id index).bind fun _ _ => trivial

theorem push_meets (v : Value) : Meets (fun _ => True) (h.push op id v) :=
  (checkMutable_meets h op id).bind fun _ _ => trivial

theorem pop_meets : Meets (fun _ => True) (h.pop op id) := by
  refine (checkMutable_meets h op id).bind fun _ _ => ?_
  split <;> exact trivial

/-- An item of a heap of proper values is proper, so it can be copied. -/
theorem get_meets {h : Heap} (hh : h.Each (w.Good · n)) (index : Int) :
    Meets (fun v => v ≠ .absent) (h.get op id index) := by
  refine (position_meets h op id index).bind fun i _ => ?_
  split
  · rename_i v hget
    exact (hh id v (Array.mem_of_getElem? hget)).1.ne_absent
  · exact trivial

end Heap

/-- A native function refuses proper arguments in an ordinary way. -/
theorem effect_meets (f : Native) {args : List Value} (hargs : w.All args n) {s : Store}
    (hs : s.heap.Each (w.Good · n)) : Meets (fun _ => True) (f.effect args s) := by
  have hmissing : .missingText ∉ args := fun hm => (hargs _ hm).2 rfl
  have hshown : ∀ v ∈ args, Meets (fun _ => True) (v.format s.heap) := by
    intro v hv
    obtain ⟨text, htext⟩ := Value.format_ok hs false (hargs v hv)
    rw [htext]
    exact trivial
  unfold Native.effect
  split
  · exact (hshown _ List.mem_cons_self).bind fun _ _ => trivial
  · exact (hshown _ List.mem_cons_self).bind fun _ _ => trivial
  · refine Meets.bind (P := fun _ => True) ?_ fun _ _ => trivial
    unfold Store.checkLine
    split <;> exact trivial
  · exact trivial
  · exact trivial
  · exact absurd List.mem_cons_self hmissing
  · exact absurd List.mem_cons_self hmissing
  · refine Meets.bind (P := fun _ => True) ?_ fun _ _ => trivial
    unfold Native.asciiText
    split <;> exact trivial
  · refine Meets.bind (P := fun _ => True) ?_ fun _ _ => trivial
    unfold Native.asciiCode
    split
    · split <;> exact trivial
    · exact trivial
  · exact absurd List.mem_cons_self hmissing
  · exact (set_meets _ _ _ _ _).bind fun _ _ => trivial
  · exact (push_meets _ _ _ _).bind fun _ _ => trivial
  · exact (pop_meets _ _ _).bind fun _ _ => trivial
  · refine (get_meets _ _ hs _).bind fun v hv => ?_
    rw [Value.copy_of_ne hv]
    exact trivial
  · exact (Value.integer_meets _ _).bind fun _ _ => trivial
  · exact (checkPath_meets _).bind fun _ _ => (readText_meets _ _).bind fun _ _ => trivial
  · exact absurd List.mem_cons_self hmissing
  · exact trivial
  · exact trivial

theorem writeTo (path contents : String) {append : Value} (happend : w.Good append n) :
    w.Safe n (Native.writeTo path contents append) (Native.writeTo path contents append)
      fun _ _ => True :=
  .onStore _ fun s hs _ =>
    (Value.isTruthy_meets s.heap happend).bind fun _ _ => (checkPath_meets path).bind fun _ _ =>
      (writeText_meets _ _ _ _).bind fun _ _ => ⟨hs, Nat.le_refl _, trivial⟩

theorem native (f : Native) {args : List Value} (hargs : w.All args n) :
    w.Safe n (f.call args) (f.call args) w.Result := by
  have hmissing : .missingText ∉ args := fun hm => (hargs _ hm).2 rfl
  refine Safe.bind (P := fun _ _ => True)
    (.lift ((checkArguments_meets _ _ _).imp fun _ _ _ _ => trivial)) fun _ k hk _ => ?_
  rw [Native.perform_eq]
  unfold Native.atOnce
  split
  · have happend := hargs _ (List.mem_cons_of_mem _ (List.mem_cons_of_mem _ List.mem_cons_self))
    exact Safe.bind (writeTo _ _ (happend.mono hk)) fun _ _ _ _ => Safe.none
  · exact absurd (List.mem_cons_of_mem _ List.mem_cons_self) hmissing
  · exact absurd List.mem_cons_self hmissing
  · refine Safe.onStore _ fun s hs hn => ?_
    refine (effect_meets f (hargs.mono (Nat.le_trans hk hn)) hs).and_ok fun r hok => ?_
    have hdoes := Native.does_of_effect hok
    have hsize := hdoes.size_le
    obtain ⟨hheap, hr⟩ := hdoes.each (hs.imp fun _ hv => hv.mono hsize)
      (hargs.mono (Nat.le_trans hk (Nat.le_trans hn hsize)))
      (fun _ hfit => Value.Plain.proper hfit) (fun _ => Value.Plain.proper trivial)
      fun _ hid => Value.proper_list hid
    exact ⟨hheap, hsize, hr⟩

/-! ## Parts of instructions -/

theorem firstOperand {i : Instr} (h : i.operands ≠ []) :
    w.Safe n (Eval.firstOperand i) (Eval.firstOperand i) fun e _ => e ∈ i.operands := by
  unfold Eval.firstOperand
  cases hops : i.operands with
  | nil => exact absurd hops h
  | cons e rest => exact .pure e fun _ _ => List.mem_cons_self

theorem literal {i : Instr} (h : i.value.isSome = true) :
    w.Safe n (Eval.literal i) (Eval.literal i) fun _ _ => True := by
  unfold Eval.literal
  cases hv : i.value with
  | none =>
      rw [hv] at h
      cases h
  | some s => exact .pure s fun _ _ => trivial

theorem listId (op : String) (v : Value) :
    w.Safe n (Eval.listId op v) (Eval.listId op v) fun _ _ => True := by
  unfold Eval.listId
  split
  · exact .pure _ fun _ _ => trivial
  · exact .halt trivial

theorem truth {v : Value} (hv : w.Good v n) :
    w.Safe n (Eval.truth v) (Eval.truth v) fun _ _ => True :=
  Safe.bind (P := fun _ _ => True) (.read _ fun _ _ => trivial) fun heap _ _ _ =>
    .lift ((Value.isTruthy_meets heap hv).imp fun _ _ _ _ => trivial)

/-- A computation that gives a number or a text. -/
theorem plain {e : Except Halt Value} (he : Meets Value.Plain e) :
    w.Safe n (Run.lift e >>= fun v => pure (some v)) (Run.lift e >>= fun v => pure (some v))
      w.Result :=
  Safe.bind (P := fun v _ => v.Plain) (.lift (he.imp fun _ hv _ _ => hv)) fun v _ _ hv =>
    .pure (some v) fun _ _ => .some hv.proper

section Parts

variable {ev ev' : Instr → Run (Option Value)}

theorem required (op : String) {i : Instr} (h : w.Safe n (ev i) (ev' i) w.Result) :
    w.Safe n (Eval.required ev op i) (Eval.required ev' op i) w.Good := by
  refine Safe.bind h fun r k _ hr => ?_
  cases r with
  | some v => exact .pure v fun _ hl => (hr v rfl).mono hl
  | none => exact .halt trivial

theorem values (op : String) {is : List Instr} (h : ∀ j ∈ is, w.Safe n (ev j) (ev' j) w.Result) :
    w.Safe n (Eval.values ev op is) (Eval.values ev' op is) fun vs k =>
      vs.length = is.length ∧ w.All vs k := by
  induction is generalizing n with
  | nil => exact .pure [] fun _ _ => ⟨rfl, fun v hv => by cases hv⟩
  | cons i rest ih =>
      refine Safe.bind (required op (h i List.mem_cons_self)) fun v k hk hv => ?_
      refine Safe.bind (ih fun j hj => (h j (List.mem_cons_of_mem i hj)).mono hk)
        fun vs l hl hvs => ?_
      refine .pure (v :: vs) fun m hm => ⟨congrArg Nat.succ hvs.1, fun x hx => ?_⟩
      rcases List.mem_cons.1 hx with rfl | hx
      · exact hv.mono (Nat.le_trans hl hm)
      · exact (hvs.2 x hx).mono hm

theorem block {is : List Instr} (h : ∀ j ∈ is, w.Safe n (ev j) (ev' j) w.Result) :
    w.Safe n (Eval.block ev is) (Eval.block ev' is) fun _ _ => True := by
  induction is generalizing n with
  | nil => exact .pure () fun _ _ => trivial
  | cons i rest ih =>
      exact Safe.bind (h i List.mem_cons_self) fun _ k hk _ =>
        ih fun j hj => (h j (List.mem_cons_of_mem i hj)).mono hk

/-! ## Operators -/

theorem operator (op : String) {i : Instr} {f : Heap → List Value → Except Halt Value}
    (h : ∀ j ∈ i.operands, w.Safe n (ev j) (ev' j) w.Result)
    (hf : ∀ heap vs k, vs.length = i.operands.length → w.All vs k →
      Meets Value.Plain (f heap vs)) :
    w.Safe n (Eval.operator ev op i f) (Eval.operator ev' op i f) w.Result :=
  Safe.bind (values op h) fun vs k _ hvs =>
    Safe.bind (P := fun _ _ => True) (.read _ fun _ _ => trivial) fun heap _ _ _ =>
      plain (hf heap vs k hvs.1 hvs.2)

theorem unary (op : String) {i : Instr} {f : Heap → Value → Except Halt Value}
    (hone : i.operands.length = 1) (h : ∀ j ∈ i.operands, w.Safe n (ev j) (ev' j) w.Result)
    (hf : ∀ heap v k, w.Good v k → Meets Value.Plain (f heap v)) :
    w.Safe n (Eval.unary ev op i f) (Eval.unary ev' op i f) w.Result :=
  Safe.bind (firstOperand (List.ne_nil_of_length_pos (by omega))) fun e _ hk he =>
    Safe.bind (required op ((h e he).mono hk)) fun v l _ hv =>
      Safe.bind (P := fun _ _ => True) (.read _ fun _ _ => trivial) fun heap _ _ _ =>
        plain (hf heap v l hv)

theorem comparison (op : String) {i : Instr} {test : Ordering → Bool}
    (htwo : i.operands.length = 2) (h : ∀ j ∈ i.operands, w.Safe n (ev j) (ev' j) w.Result) :
    w.Safe n (Eval.comparison ev op i fun v x => (v.compare x).map fun o => Value.ofBool (test o))
      (Eval.comparison ev' op i fun v x => (v.compare x).map fun o => Value.ofBool (test o))
      w.Result := by
  refine operator op h fun _ vs k hlen hvs => ?_
  match vs, hlen.trans htwo with
  | [left, right], _ =>
      exact Value.comparison_meets test (hvs left List.mem_cons_self)
        (hvs right (List.mem_cons_of_mem _ List.mem_cons_self))

/-! ## Blocks and lists -/

theorem condition {i : Instr} (hone : i.operands.length = 1)
    (h : ∀ j ∈ i.children, w.Safe n (ev j) (ev' j) w.Result) :
    w.Safe n (Eval.condition ev i) (Eval.condition ev' i) w.Result := by
  refine Safe.bind (firstOperand (List.ne_nil_of_length_pos (by omega))) fun e k hk he => ?_
  refine Safe.bind (required "if" ((h e (Instr.mem_children_of_operands he)).mono hk))
    fun v l hl hv => ?_
  refine Safe.bind (truth hv) fun holds m hm _ => Safe.thenNone (block fun j hj => ?_)
  refine (h j ?_).mono (by omega)
  cases holds with
  | true => exact Instr.mem_children_of_body hj
  | false => exact Instr.mem_children_of_orelse hj

theorem arraySet {i : Instr} (hthree : i.operands.length = 3)
    (h : ∀ j ∈ i.operands, w.Safe n (ev j) (ev' j) w.Result) :
    w.Safe n (Eval.arraySet ev i) (Eval.arraySet ev' i) w.Result := by
  refine Safe.bind (values _ h) fun vs k _ hvs => ?_
  match vs, hvs.1.trans hthree with
  | [array, index, v], _ =>
      have hv := hvs.2 v (List.mem_cons_of_mem _ (List.mem_cons_of_mem _ List.mem_cons_self))
      refine Safe.bind (listId _ array) fun id l hl _ => ?_
      split
      · rw [Run.setItem_eq]
        exact Safe.thenNone (.onHeap _ fun heap hheap hn =>
          (set_meets heap _ id _ v).and_ok fun _ hok => hheap.set (hv.mono (by omega)) hok)
      · exact .halt trivial

theorem arrayPush {i : Instr} (htwo : i.operands.length = 2)
    (h : ∀ j ∈ i.operands, w.Safe n (ev j) (ev' j) w.Result) :
    w.Safe n (Eval.arrayPush ev i) (Eval.arrayPush ev' i) w.Result := by
  refine Safe.bind (values _ h) fun vs k _ hvs => ?_
  match vs, hvs.1.trans htwo with
  | [array, v], _ =>
      have hv := hvs.2 v (List.mem_cons_of_mem _ List.mem_cons_self)
      refine Safe.bind (listId _ array) fun id l hl _ => ?_
      rw [Run.pushItem_eq]
      exact Safe.thenNone (.onHeap _ fun heap hheap hn =>
        (push_meets heap _ id v).and_ok fun _ hok => hheap.push (hv.mono (by omega)) hok)

theorem array {is : List Instr} (h : ∀ j ∈ is, w.Safe n (ev j) (ev' j) w.Result) :
    w.Safe n
      (Eval.values ev "array" is >>= fun vs =>
        Run.onStore fun s => .ok (some (s.newList vs).1, (s.newList vs).2))
      (Eval.values ev' "array" is >>= fun vs =>
        Run.onStore fun s => .ok (some (s.newList vs).1, (s.newList vs).2)) w.Result := by
  refine Safe.bind (values _ h) fun vs k _ hvs => Safe.onStore _ fun s hs hn => ?_
  have hsize : (s.newList vs).2.heap.lists.size = s.heap.lists.size + 1 := Heap.size_alloc _ _
  refine ⟨?_, by simp only [hsize]; omega, .some (Value.proper_list ?_)⟩
  · refine Heap.Each.alloc (hs.imp fun _ hv => hv.mono ?_) (hvs.2.mono ?_) <;> simp only [hsize]
    <;> omega
  · simp only [hsize]
    exact Nat.lt_succ_self _

/-! ## Loops -/

section Rounds

variable {name : Name} {body body' : Run Unit} (hb : w.Safe n body body' fun _ _ => True)
include hb

theorem countRounds (step : Int) (rounds : Nat) (first : Int) :
    w.Safe n (Eval.countRounds w.opts name step body rounds first)
      (Eval.countRounds w.opts name step body' rounds first) fun _ _ => True := by
  induction rounds generalizing n first with
  | zero => exact .pure () fun _ _ => trivial
  | succ rounds ih =>
      refine Safe.bind (P := fun _ _ => True) (.read _ fun _ _ => trivial) fun leave k hk _ => ?_
      split
      · exact .pure () fun _ _ => trivial
      · refine Safe.bind (P := fun v _ => v.Plain)
          (.lift ((Value.integer_meets _ _).imp fun _ hv _ _ => hv)) fun v l hl hv => ?_
        refine Safe.bind (.bindName name hv.proper) fun _ m hm _ => ?_
        exact Safe.bind (hb.mono (by omega)) fun _ o ho _ => ih (hb.mono (by omega)) _

theorem itemRounds {items : List Value} (hitems : w.All items n) :
    w.Safe n (Eval.itemRounds w.opts name body items)
      (Eval.itemRounds w.opts name body' items) fun _ _ => True := by
  induction items generalizing n with
  | nil => exact .pure () fun _ _ => trivial
  | cons v rest ih =>
      have hv := hitems v List.mem_cons_self
      refine Safe.bind (P := fun _ _ => True) (.read _ fun _ _ => trivial) fun leave k hk _ => ?_
      split
      · exact .pure () fun _ _ => trivial
      · rw [Value.copy_of_ne hv.1.ne_absent]
        refine Safe.bind (P := fun x _ => x = v) (.pure v fun _ _ => rfl) fun x l hl hx => ?_
        subst hx
        refine Safe.bind (.bindName name (hv.mono (Nat.le_trans hk hl))) fun _ m hm _ => ?_
        exact Safe.bind (hb.mono (by omega)) fun _ o ho _ => ih (hb.mono (by omega))
          (All.mono (fun y hy => hitems y (List.mem_cons_of_mem _ hy)) (by omega))

theorem whileRounds {test test' : Run Bool} (ht : w.Safe n test test' fun _ _ => True)
    (fuel : Nat) :
    w.Safe n (Eval.whileRounds test body fuel) (Eval.whileRounds test' body' fuel)
      fun _ _ => True := by
  induction fuel generalizing n with
  | zero => exact .exhausted
  | succ fuel ih =>
      refine Safe.bind (P := fun _ _ => True) (.read _ fun _ _ => trivial) fun left k hk _ => ?_
      split
      · exact .pure () fun _ _ => trivial
      · refine Safe.bind (ht.mono hk) fun holds l hl _ => ?_
        split
        · exact Safe.bind (hb.mono (by omega)) fun _ m hm _ =>
            ih (hb.mono (by omega)) (ht.mono (by omega))
        · exact .pure () fun _ _ => trivial

end Rounds

theorem countLoop {i : Instr} (hthree : i.operands.length = 3)
    (h : ∀ j ∈ i.children, w.Safe n (ev j) (ev' j) w.Result) :
    w.Safe n (Eval.countLoop w.opts ev i) (Eval.countLoop w.opts ev' i) w.Result := by
  refine Safe.bind (values _ fun j hj => h j (Instr.mem_children_of_operands hj))
    fun vs k hk hvs => ?_
  split
  · split
    · exact .halt trivial
    · exact Safe.thenNone (countRounds
        (block fun j hj => (h j (Instr.mem_children_of_body hj)).mono hk) _ _ _)
  · exact Safe.none
  · rename_i hcount
    -- there are three values
    match vs, hvs.1.trans hthree with
    | [first, last, step], _ => exact absurd rfl (hcount first last step)

theorem eachLoop {i : Instr} (hone : i.operands.length = 1)
    (h : ∀ j ∈ i.children, w.Safe n (ev j) (ev' j) w.Result) :
    w.Safe n (Eval.eachLoop w.opts ev i) (Eval.eachLoop w.opts ev' i) w.Result := by
  refine Safe.bind (firstOperand (List.ne_nil_of_length_pos (by omega))) fun e k hk he => ?_
  refine Safe.bind (required "each" ((h e (Instr.mem_children_of_operands he)).mono hk))
    fun v l hl _ => ?_
  refine Safe.bind (listId "each" v) fun id m hm _ => ?_
  have hitems : w.Safe m (Run.read fun s => (s.store.heap.items id).toList)
      (Run.read fun s => (s.store.heap.items id).toList) w.All :=
    .read _ fun s hs x hx => hs.proper.heap id x (Array.mem_toList_iff.1 hx)
  refine Safe.bind hitems fun items o ho hall => ?_
  exact Safe.thenNone (Safe.iterating id (itemRounds
    (block fun j hj => (h j (Instr.mem_children_of_body hj)).mono (by omega)) hall))

theorem whileLoop {i : Instr} (hone : i.operands.length = 1)
    (h : ∀ j ∈ i.children, w.Safe n (ev j) (ev' j) w.Result) (fuel : Nat) :
    w.Safe n (Eval.whileLoop ev fuel i) (Eval.whileLoop ev' fuel i) w.Result := by
  refine Safe.bind (firstOperand (List.ne_nil_of_length_pos (by omega))) fun e k hk he => ?_
  have hcond := (h e (Instr.mem_children_of_operands he)).mono hk
  exact Safe.thenNone (whileRounds
    (block fun j hj => (h j (Instr.mem_children_of_body hj)).mono hk)
    (Safe.bind (required "while" hcond) fun _ _ _ hv => truth hv) fuel)

end Parts

/-! ## Calls -/

/-- The bodies of the functions of the program are safe in proper frames. -/
def Bodies (w : Watch) (n : Nat) (ev ev' : Evaluator) : Prop :=
  ∀ f ∈ w.program.functions, ∀ inner k, n ≤ k → w.Frames inner k →
    w.Safe k (Eval.block (ev inner) f.body) (Eval.block (ev' inner) f.body) fun _ _ => True

theorem Bodies.mono {ev ev' : Evaluator} {k : Nat} (h : w.Bodies n ev ev') (hle : n ≤ k) :
    w.Bodies k ev ev' :=
  fun f hf inner l hl => h f hf inner l (Nat.le_trans hle hl)

theorem callLine_meets (f : Closure) {args : List Value} (hargs : w.All args n) (scope : Scope)
    (s : State) (hs : w.Kept n s) : Meets (fun _ => True) (Eval.callLine f args scope s) := by
  refine Meets.map (P := fun _ => True) ?_ fun _ _ => trivial
  induction args with
  | nil => exact trivial
  | cons v rest ih =>
      obtain ⟨text, htext⟩ := Value.format_ok hs.proper.heap true
        ((hargs v List.mem_cons_self).mono hs.size)
      unfold Value.formatAll
      rw [htext]
      exact (ih fun x hx => hargs x (List.mem_cons_of_mem v hx)).map fun _ _ => trivial

section Calls

variable {ev ev' : Evaluator} {outer : List Frame} (houter : w.Frames outer n)
  (hbodies : w.Bodies n ev ev')
include houter hbodies

theorem callClosure {scope : Scope} (hscope : ∀ word, scope ≠ .unknown word) {f : FunctionDef}
    (hf : f ∈ w.program.functions) {args : List Value} (hargs : w.All args n) :
    w.Safe n (Eval.callClosure w.opts ev outer scope ⟨f.name, f.params, f.body⟩ args)
      (Eval.callClosure w.opts ev' outer scope ⟨f.name, f.params, f.body⟩ args) w.Result := by
  unfold Eval.callClosure
  split
  · exact .halt trivial
  · refine Safe.bind (P := fun _ _ => True) (.read _ fun _ _ => trivial) fun depth k hk _ => ?_
    split
    · exact .halt trivial
    · refine Safe.bind .frame fun frame l hl hframe => ?_
      have hframes := Frames.cons hframe (houter.mono (Nat.le_trans hk hl))
      have hinner : w.Safe l (Run.lift (Eval.calleeOuter scope frame outer))
          (Run.lift (Eval.calleeOuter scope frame outer)) w.Frames := by
        cases scope with
        | lexical => exact .pure _ fun _ hm => hframes.mono hm
        | global =>
            refine .pure _ fun _ hm g hg => ?_
            rw [List.mem_singleton.1 hg]
            exact hframes.mono hm _ (frame.root_mem outer)
        | unknown word => exact absurd rfl (hscope word)
      refine Safe.bind hinner fun inner m hm hin => ?_
      refine Safe.bind (.trace _ _ (callLine_meets _ (hargs.mono (by omega)) scope))
        fun _ o ho _ => ?_
      exact Safe.inFrame (Frame.Each.ofArguments (hargs.mono (by omega)))
        (hbodies f hf inner o (by omega) (hin.mono ho))

theorem callValue {scope : Scope} (hscope : ∀ word, scope ≠ .unknown word) {callee : Value}
    (hcallee : w.Good callee n) {args : List Value} (hargs : w.All args n) :
    w.Safe n (Eval.callValue w.opts ev outer scope callee args)
      (Eval.callValue w.opts ev' outer scope callee args) w.Result := by
  unfold Eval.callValue
  cases callee with
  | native f =>
      exact Safe.bind (.trace _ _ fun _ _ => trivial) fun _ _ hk _ => native f (hargs.mono hk)
  | closure f =>
      obtain ⟨g, hg, rfl⟩ := hcallee.1
      exact callClosure houter hbodies hscope hg hargs
  | _ => exact .halt trivial

theorem call {i : Instr} (hsome : 1 ≤ i.operands.length)
    (h : ∀ j ∈ i.operands, w.Safe n (ev outer j) (ev' outer j) w.Result) :
    w.Safe n (Eval.call w.opts ev outer i) (Eval.call w.opts ev' outer i) w.Result := by
  unfold Eval.call
  cases hops : i.operands with
  | nil =>
      rw [hops] at hsome
      cases hsome
  | cons callee args =>
      rw [hops] at h
      refine Safe.bind (values _ fun j hj => h j (List.mem_cons_of_mem callee hj))
        fun vs k hk hvs => ?_
      refine Safe.bind (required _ ((h callee List.mem_cons_self).mono hk)) fun f l hl hf => ?_
      have hn := Nat.le_trans hk hl
      exact callValue (houter.mono hn) (hbodies.mono hn) (fun _ heq => by cases heq) hf
        (hvs.2.mono hl)

theorem callNamed {i : Instr}
    (h : ∀ j ∈ i.operands, w.Safe n (ev outer j) (ev' outer j) w.Result) :
    w.Safe n (Eval.callNamed w.opts ev outer i) (Eval.callNamed w.opts ev' outer i) w.Result := by
  refine Safe.bind (values _ h) fun vs k hk hvs => Safe.bind .frame fun frame l hl hframe => ?_
  have hn := Nat.le_trans hk hl
  split
  · rename_i f hget
    obtain ⟨g, hg, hpresent⟩ := Option.bind_eq_some_iff.1 hget
    rw [Value.eq_of_present? hpresent]
    have hroot := Frames.cons hframe (houter.mono hn) _ (frame.root_mem outer)
    exact callValue (houter.mono hn) (hbodies.mono hn) (fun _ heq => by cases heq)
      (hroot.bindings _ g hg) (hvs.2.mono hl)
  · exact .halt trivial

/-! ## All kinds -/

omit hbodies in
theorem variableValue (name : Name) :
    w.Safe n (Eval.variableValue outer name) (Eval.variableValue outer name) w.Result := by
  refine Safe.bind .frame fun frame k hk hframe => ?_
  split
  · rename_i v hget
    obtain ⟨x, hx, hpresent⟩ := Option.bind_eq_some_iff.1 hget
    rw [Value.eq_of_present? hpresent]
    have hgood := Frame.Each.of_lookup? (Frames.cons hframe (houter.mono hk)) hx
    exact .pure _ fun _ hl => .some (Good.mono hgood hl)
  · exact .halt trivial

/-- A shaped instruction whose parts are safe, performed. -/
theorem perform {i : Instr} (hi : i.Shaped)
    (h : ∀ j ∈ i.children, w.Safe n (ev outer j) (ev' outer j) w.Result) (fuel : Nat) :
    w.Safe n (Eval.perform w.opts ev fuel outer i) (Eval.perform w.opts ev' fuel outer i)
      w.Result := by
  have hops : ∀ j ∈ i.operands, w.Safe n (ev outer j) (ev' outer j) w.Result :=
    fun j hj => h j (Instr.mem_children_of_operands hj)
  obtain ⟨hknown, hpayload, hcount⟩ := hi
  unfold Eval.perform
  cases hkind : i.kind <;> rw [hkind] at hknown hpayload hcount
  case value => exact variableValue houter _
  case assign =>
      refine Safe.bind (firstOperand (List.ne_nil_of_length_eq_add_one hcount)) fun e k hk he => ?_
      refine Safe.bind (required _ ((hops e he).mono hk)) fun v l _ hv => ?_
      exact Safe.thenNone (.bindName _ hv)
  case integer =>
      exact Safe.bind (literal (hpayload rfl)) fun _ _ _ _ => plain (Value.parseInteger_meets _ _)
  case real =>
      exact Safe.bind (literal (hpayload rfl)) fun _ _ _ _ => plain (Value.parseReal_meets _ _)
  case text =>
      obtain ⟨s, hs⟩ := Option.isSome_iff_exists.1 (hpayload rfl)
      rw [hs]
      exact .pure _ fun _ _ => .some (Value.Plain.proper trivial)
  case integerCast => exact unary _ hcount hops fun _ _ _ hv => Value.castInteger_meets _ hv
  case realCast => exact unary _ hcount hops fun _ _ _ hv => Value.castReal_meets _ hv
  case textCast => exact unary _ hcount hops fun _ _ _ hv => Value.castText_meets _ hv
  case array => exact array hops
  case add => exact operator _ hops fun _ _ _ _ hvs => Value.add_meets hvs
  case subtract =>
      exact operator _ hops fun _ _ _ hlen hvs =>
        Value.subtract_meets hvs (List.ne_nil_of_length_pos (hlen ▸ hcount))
  case multiply => exact operator _ hops fun _ _ _ _ hvs => Value.multiply_meets hvs
  case divide =>
      exact operator _ hops fun _ _ _ hlen hvs =>
        Value.divide_meets hvs (List.ne_nil_of_length_pos (hlen ▸ hcount))
  case and => exact operator _ hops fun heap _ _ _ hvs => Value.and_meets heap hvs
  case or => exact operator _ hops fun heap _ _ _ hvs => Value.or_meets heap hvs
  case not => exact unary _ hcount hops fun heap _ _ hv => Value.not_meets heap hv
  case equal => exact comparison _ hcount hops
  case greater => exact comparison _ hcount hops
  case lower => exact comparison _ hcount hops
  case call => exact call houter hbodies hcount hops
  case callNamed => exact callNamed houter hbodies hops
  case giveBack =>
      refine Safe.bind (firstOperand (List.ne_nil_of_length_eq_add_one hcount)) fun e k hk he => ?_
      refine Safe.bind (required _ ((hops e he).mono hk)) fun v l _ hv => ?_
      exact Safe.thenNone (.signalReturn hv)
  case ifThen => exact condition hcount h
  case ifElse => exact condition hcount h
  case countLoop => exact countLoop hcount h
  case eachLoop => exact eachLoop hcount h
  case whileLoop => exact whileLoop hcount h fuel
  case arraySet => exact arraySet hcount hops
  case arrayPush => exact arrayPush hcount hops
  case unknown word => exact absurd rfl (Kind.known_iff.1 hknown word)

/-- One level of evaluation whose parts are safe. -/
theorem step {i : Instr} (hi : i.Shaped)
    (h : ∀ j ∈ i.children, w.Safe n (ev outer j) (ev' outer j) w.Result) (fuel : Nat) :
    w.Safe n (Eval.step w.opts ev fuel outer i) (Eval.step w.opts ev' fuel outer i) w.Result := by
  refine Safe.bind (P := fun _ _ => True) (.read _ fun _ _ => trivial) fun returned k hk _ => ?_
  split
  · exact Safe.none
  · refine Safe.bind (.trace _ _ fun _ _ => trivial) fun _ l hl _ => Safe.located i.span ?_
    exact (perform houter hbodies hi h fuel).mono (Nat.le_trans hk hl)

end Calls

/-! ## Evaluation -/

/-- The check passes wherever the evaluation of an instruction of the program is safe, from states
    with at least `n` lists on. -/
def Passes (w : Watch) (n : Nat) : Prop :=
  ∀ outer i s o, i.parts ⊆ w.program.instructions → w.Frames outer s.size → w.Kept n s →
    w.Ends s.size w.Result o → w.check outer i s o

theorem Passes.mono {k : Nat} (h : w.Passes n) (hle : n ≤ k) : w.Passes k :=
  fun outer i s o hi houter hs => h outer i s o hi houter (hs.mono hle)

/-- The evaluation of the instructions of the program is safe, and no alarm is raised. -/
theorem eval_safe (hpass : w.Passes n) {fuel : Nat} {outer : List Frame} {i : Instr}
    (houter : w.Frames outer n) (hi : i.parts ⊆ w.program.instructions) :
    w.Safe n (eval w.opts fuel outer i) (alarmed w.opts w.check w.alarm fuel outer i)
      w.Result := by
  induction fuel generalizing n outer i with
  | zero => exact .exhausted
  | succ fuel ih =>
      have hchildren : ∀ j ∈ i.children, w.Safe n (eval w.opts fuel outer j)
          (alarmed w.opts w.check w.alarm fuel outer j) w.Result := fun j hj =>
        ih hpass houter fun k hk => hi (Instr.parts_subset_of_mem hj hk)
      -- the body of a function of the program consists of instructions of the program
      have hbodies : w.Bodies n (eval w.opts fuel) (alarmed w.opts w.check w.alarm fuel) := by
        intro f hf inner k hk hinner
        refine block fun j hj => ih (hpass.mono hk) hinner fun part hpart => ?_
        exact (Program.body_sublist_instructions hf).subset
          ((Instr.parts_sublist_partsAll hj).subset hpart)
      have hstep := step houter hbodies (w.shaped i (hi i.self_mem_parts)) hchildren fuel
      intro s hs
      obtain ⟨hends, hsame⟩ := hstep s hs
      exact ⟨hends, alarmed_succ w.opts w.check w.alarm fuel outer i s hsame
        (hpass outer i s _ hi (houter.mono hs.size) hs hends)⟩

/-- The operands of an instruction of the program leave a proper state, and their values are
    proper. -/
theorem values_proper {outer : List Frame} {i : Instr} {s : State}
    (hi : i.parts ⊆ w.program.instructions) (houter : w.Frames outer s.size)
    (hs : s.Proper w.program w.arguments) {fuel : Nat} {op : String} {is : List Instr}
    (his : is ⊆ i.operands) {vs : List Value} {t : State}
    (h : Eval.values (eval w.opts fuel outer) op is (s.traced w.opts i) = .done vs t) :
    t.Proper w.program w.arguments ∧ w.All vs t.size := by
  let w' : Watch := { w with check := fun _ _ _ _ => True }
  have hparts : ∀ j ∈ is, w'.Safe s.size (eval w.opts fuel outer j) _ w'.Result := fun j hj =>
    eval_safe (w := w') (fun _ _ _ _ _ _ _ _ => trivial) houter fun k hk =>
      hi (Instr.parts_subset_of_mem (Instr.mem_children_of_operands (his hj)) hk)
  have htraced : w'.Kept s.size (s.traced w.opts i) := by
    unfold State.traced
    split
    · exact Kept.of_heap (w := w') ⟨hs, Nat.le_refl _⟩ hs.heap (Nat.le_refl _)
    · exact ⟨hs, Nat.le_refl _⟩
  have hvalues := (values (w := w') op hparts _ htraced).1
  rw [h] at hvalues
  cases hvalues with
  | done hk hQ => exact ⟨hk.proper, hQ.2⟩

theorem frames_root (w : Watch) (k : Nat) :
    w.Frames [Frame.ofProgram w.program w.arguments] k := by
  intro f hf
  rw [List.mem_singleton.1 hf]
  exact Frame.Each.ofProgram (fun _ hn => ⟨hn, fun heq => by cases heq⟩)
    fun d hd => ⟨⟨d, hd, rfl⟩, fun heq => by cases heq⟩

/-- The runs of the program are safe, and no alarm is raised. -/
theorem run_safe (hpass : w.Passes 0) (fuel : Nat) :
    w.Safe 0 (w.program.run w.opts fuel w.arguments)
      (w.program.alarmedRun w.opts w.check w.alarm fuel w.arguments) fun _ _ => True := by
  refine Safe.bind (.trace _ _ fun _ _ => trivial) fun _ k hk _ => block fun i hi => ?_
  refine eval_safe (hpass.mono hk) (w.frames_root k) fun j hj => ?_
  exact w.program.main_sublist_instructions.subset ((Instr.parts_sublist_partsAll hi).subset hj)

theorem kept_start (w : Watch) (files : Files) (stdin : Input) :
    w.Kept 0 (Program.start files stdin) :=
  ⟨⟨Frame.Each.empty, Heap.Each.empty⟩, Nat.zero_le _⟩

end TagScript.Watch
