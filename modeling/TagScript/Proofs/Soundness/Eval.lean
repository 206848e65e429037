import TagScript.Proofs.Soundness.Comparison

set_option autoImplicit false

/-! # Evaluation from sound states

Evaluation is compared part by part (`Comparison.perform`), and then by induction on the fuel
(`Comparison.eval_safe`). Callable values are functions of the program, so a call is one of finitely
many bodies, one level deeper; and while no loop on a condition is met, the fuel that an evaluation
needs is bounded by the instructions inside it and those of the calls that are still allowed. -/

namespace TagScript

/-- Fuel for the instructions of the program, once for each level of calls. -/
def Program.fuelBound (p : Program) (opts : Options) : Nat :=
  (opts.maxCallDepth.toNat + 1) * p.instructions.length

namespace Comparison

variable {c : Comparison} {names : Name → Prop} {d n : Nat}

/-! ## Native functions -/

theorem writeTo (path contents : String) (append : Value) :
    c.Gives names d n (Native.writeTo path contents append) (Native.writeTo path contents append)
      fun _ _ => True := by
  refine .onStore _ fun s t a hs _ hok => ?_
  obtain ⟨_, _, hok⟩ := except_bind_ok hok
  obtain ⟨_, _, hok⟩ := except_bind_ok hok
  obtain ⟨files, _, hok⟩ := except_bind_ok hok
  cases hok
  exact ⟨hs, Nat.le_refl _, trivial⟩

theorem native (f : Native) {args : List Value} (hargs : c.All args n) :
    c.Gives names d n (f.call args) (f.call args) c.Result := by
  refine Safe.bind (P := fun _ _ => True) (.lift _ fun _ _ _ _ => trivial) fun _ k hk _ => ?_
  rw [Native.perform_eq]
  unfold Native.atOnce
  split
  · exact Safe.bind (writeTo _ _ _) fun _ _ _ _ => Gives.pure none fun _ _ => .none
  · exact Safe.bind (writeTo _ _ _) fun _ _ _ _ => Safe.halt _
  · exact Safe.bind .heap fun _ _ _ _ =>
      Safe.bind (P := fun _ _ => True) (.lift _ fun _ _ _ _ => trivial) fun _ _ _ _ => Safe.halt _
  · refine Gives.onStore _ fun s t r hs hsize hok => ?_
    exact (Native.does_of_effect hok).sound hs (hargs.mono (Nat.le_trans hk hsize))

/-! ## Parts of instructions -/

theorem Gives.evals {m m' : Run (Option Value)} (h : c.Gives names d n m m' c.Result) :
    c.Evals names d n m m' :=
  Safe.imp h fun _ _ _ hr v hv => ⟨hr.1, hr.2 v hv⟩

/-- One run after another that may leave a frame that has returned. From then on, what is left to do
    is compared in states that may differ. -/
theorem Safe.seq {α β : Type} {m m' : Run α} {f f' : Run β} {P : α → State → Prop}
    {Q : β → State → Prop} (hm : c.Safe names d n m m' P) (hf : c.Safe names d n f f' Q)
    (hfilled : ∀ s a t t', c.Kept d n s → s.Open → m s = .done a t → c.Kept d s.size t →
      ¬ t.Open → c.Near names t t' → c.Matches names d s.size Q (f t) (f' t')) :
    c.Safe names d n (m >>= fun _ => f) (m' >>= fun _ => f') Q := by
  intro s hs ho
  have h := hm s hs ho
  rw [Run.bind_apply, Run.bind_apply]
  generalize hms : m s = o at h ⊢
  generalize m' s = o' at h ⊢
  cases h with
  | @done a t t' hk _ hnear =>
      by_cases hopen : t.Open
      · obtain rfl := hnear.same (.inl hopen)
        exact (hf t' (hk.mono hs.size) hopen).imp hk.size fun _ _ _ hQ => hQ
      · exact hfilled s a t t' hs ho hms hk hopen hnear
  | halted hk hnear => exact .halted hk hnear
  | outOfFuel ht => exact .outOfFuel ht

theorem Safe.done {α : Type} (a : α) :
    c.Safe names d n (pure a) (pure a) fun _ _ => True :=
  fun s hs _ => .done hs.atSize trivial (.refl c names s)

/-- An instruction that runs something and gives no value. -/
theorem Safe.evals_none {m m' : Run Unit} (h : c.Safe names d n m m' fun _ _ => True) :
    c.Evals names d n (m >>= fun _ => pure none) (m' >>= fun _ => pure none) := by
  refine Safe.seq h (Gives.evals (Gives.pure none fun _ _ => .none)) ?_
  intro s _ t t' _ _ _ hk _ hnear
  exact .done hk (fun v hv => by cases hv) hnear

theorem firstOperand (i : Instr) :
    c.Gives names d n (Eval.firstOperand i) (Eval.firstOperand i) fun e _ => e ∈ i.operands := by
  unfold Eval.firstOperand
  cases i.operands with
  | nil => exact Safe.halt _
  | cons e rest => exact .pure e fun _ _ => List.mem_cons_self

theorem literal (i : Instr) :
    c.Gives names d n (Eval.literal i) (Eval.literal i) fun _ _ => True := by
  unfold Eval.literal
  cases i.value with
  | none => exact Safe.halt _
  | some s => exact .pure s fun _ _ => trivial

theorem listId (op : String) (v : Value) :
    c.Gives names d n (Eval.listId op v) (Eval.listId op v) fun _ _ => True := by
  unfold Eval.listId
  split
  · exact .pure _ fun _ _ => trivial
  · exact Safe.halt _

theorem truth (v : Value) : c.Gives names d n (Eval.truth v) (Eval.truth v) fun _ _ => True :=
  Safe.bind .heap fun _ _ _ _ => Gives.lift _ fun _ _ _ _ => trivial

/-- A computation on sound values that gives a number or a text. -/
theorem scalar {e : Except Halt Value} (h : ∀ v, e = .ok v → v.Scalar) :
    c.Gives names d n (Run.lift e >>= fun v => pure (some v))
      (Run.lift e >>= fun v => pure (some v)) c.Result :=
  Safe.bind (P := fun v _ => v.Scalar) (.lift e fun v _ _ hv => h v hv) fun v _ _ hv =>
    Gives.pure (some v) fun _ _ => .some hv.sound

section Parts

variable {ev ev' : Instr → Run (Option Value)}

/-- An operand that gives no value may have made the frame return; the run halts then. -/
theorem required (op : String) {i : Instr} (h : c.Evals names d n (ev i) (ev' i)) :
    c.Gives names d n (Eval.required ev op i) (Eval.required ev' op i)
      fun v k => v.Sound c.program c.arguments k := by
  intro s hs ho
  have hi := h s hs ho
  unfold Eval.required
  rw [Run.bind_apply, Run.bind_apply]
  generalize ev i s = o at hi ⊢
  generalize ev' i s = o' at hi ⊢
  cases hi with
  | @done r t t' hk hr hnear =>
      cases r with
      | none => exact .halted hk hnear
      | some v => exact .done hk (hr v rfl) hnear
  | halted hk hnear => exact .halted hk hnear
  | outOfFuel ht => exact .outOfFuel ht

theorem values (op : String) {is : List Instr} (h : ∀ i ∈ is, c.Evals names d n (ev i) (ev' i)) :
    c.Gives names d n (Eval.values ev op is) (Eval.values ev' op is) c.All := by
  induction is generalizing n with
  | nil => exact .pure [] fun _ _ v hv => by cases hv
  | cons i rest ih =>
      refine Safe.bind (required op (h i List.mem_cons_self)) fun v k hk hv => ?_
      have hrest : ∀ j ∈ rest, c.Evals names d k (ev j) (ev' j) :=
        fun j hj => Safe.mono (h j (List.mem_cons_of_mem i hj)) hk
      refine Safe.bind (ih hrest) fun vs l hl hvs => Gives.pure (v :: vs) fun m hm w hw => ?_
      rcases List.mem_cons.1 hw with rfl | hw
      · exact hv.mono (Nat.le_trans hl hm)
      · exact (hvs w hw).mono hm

/-- Neither evaluator does anything in a frame that has returned, unless there is no fuel. -/
def Rests (ev ev' : Instr → Run (Option Value)) : Prop :=
  (∀ i s, ev i s = .outOfFuel) ∨
    ∀ i s, ¬ s.Open → ev i s = .done none s ∧ ev' i s = .done none s

/-- Two blocks, the first of which has ever filled the slot, do nothing once it is filled. -/
theorem Rests.block (hrest : Rests ev ev') (is : List Instr) {s t : State} (hs : s.Open)
    (ht : ¬ t.Open) (h : Eval.block ev is s = .done () t) :
    (Eval.block ev is).Idle ∧ (Eval.block ev' is).Idle := by
  rcases hrest with hfuel | hidle
  · cases is with
    | nil =>
        cases h
        exact absurd hs ht
    | cons i rest =>
        unfold Eval.block at h
        rw [Run.bind_outOfFuel (hfuel i s)] at h
        cases h
  · exact ⟨fun u hu => Eval.block_of_idle (fun i => (hidle i u hu).1) is,
      fun u hu => Eval.block_of_idle (fun i => (hidle i u hu).2) is⟩

theorem block {is : List Instr} (h : ∀ i ∈ is, c.Evals names d n (ev i) (ev' i))
    (hrest : Rests ev ev') :
    c.Safe names d n (Eval.block ev is) (Eval.block ev' is) fun _ _ => True := by
  induction is with
  | nil => exact Safe.done ()
  | cons i rest ih =>
      refine Safe.seq (h i List.mem_cons_self) (ih fun j hj => h j (List.mem_cons_of_mem i hj)) ?_
      intro s a t t' _ _ hdone hk ht hnear
      rcases hrest with hfuel | hidle
      · rw [hfuel] at hdone
        cases hdone
      · have ht' : ¬ t'.Open := fun ho => ht (hnear.open_iff.1 ho)
        rw [Eval.block_of_idle (fun i => (hidle i t ht).1) rest,
          Eval.block_of_idle (fun i => (hidle i t' ht').2) rest]
        exact .done hk trivial hnear

/-! ## Kinds without calls and loops -/

theorem operator (op : String) {i : Instr} {f : Heap → List Value → Except Halt Value}
    (h : ∀ j ∈ i.operands, c.Evals names d n (ev j) (ev' j))
    (hf : ∀ heap vs v, f heap vs = .ok v → v.Scalar) :
    c.Gives names d n (Eval.operator ev op i f) (Eval.operator ev' op i f) c.Result :=
  Safe.bind (values op h) fun vs _ _ _ => Safe.bind .heap fun heap _ _ _ => scalar (hf heap vs)

theorem unary (op : String) {i : Instr} {f : Heap → Value → Except Halt Value}
    (h : ∀ j ∈ i.operands, c.Evals names d n (ev j) (ev' j))
    (hf : ∀ heap w v size, w.Sound c.program c.arguments size → f heap w = .ok v → v.Scalar) :
    c.Gives names d n (Eval.unary ev op i f) (Eval.unary ev' op i f) c.Result :=
  Safe.bind (firstOperand i) fun e _ hk he =>
    Safe.bind (required op (Safe.mono (h e he) hk)) fun w l _ hw =>
      Safe.bind .heap fun heap _ _ _ => scalar fun v => hf heap w v l hw

theorem comparison (op : String) {i : Instr} {f : Value → Value → Except Halt Value}
    (h : ∀ j ∈ i.operands, c.Evals names d n (ev j) (ev' j))
    (hf : ∀ left right v, f left right = .ok v → v.Scalar) :
    c.Gives names d n (Eval.comparison ev op i f) (Eval.comparison ev' op i f) c.Result := by
  refine operator op h fun _ vs v hv => ?_
  split at hv
  · exact hf _ _ v hv
  · cases hv

theorem condition {i : Instr} (h : ∀ j ∈ i.children, c.Evals names d n (ev j) (ev' j))
    (hrest : Rests ev ev') :
    c.Evals names d n (Eval.condition ev i) (Eval.condition ev' i) := by
  refine Safe.bind (firstOperand i) fun e k hk he => ?_
  have he := Safe.mono (h e (Instr.mem_children_of_operands he)) hk
  refine Safe.bind (required "if" he) fun v l hl _ => ?_
  refine Safe.bind (truth v) fun holds m hm _ => ?_
  have hn : n ≤ m := by omega
  refine Safe.evals_none (block (fun j hj => Safe.mono (h j ?_) hn) hrest)
  cases holds with
  | true => exact Instr.mem_children_of_body hj
  | false => exact Instr.mem_children_of_orelse hj

theorem arraySet {i : Instr} (h : ∀ j ∈ i.operands, c.Evals names d n (ev j) (ev' j)) :
    c.Gives names d n (Eval.arraySet ev i) (Eval.arraySet ev' i) c.Result := by
  refine Safe.bind (values _ h) fun vs k _ hvs => ?_
  split
  · rename_i array index v
    have hv := hvs v (List.mem_cons_of_mem _ (List.mem_cons_of_mem _ List.mem_cons_self))
    refine Safe.bind (listId _ array) fun id l hl _ => ?_
    split
    · rw [Run.setItem_eq]
      refine Safe.bind (.onHeap _ fun heap heap' hs hn hok => ?_) fun _ _ _ _ =>
        Gives.pure none fun _ _ => .none
      exact hs.set (hv.mono (Nat.le_trans hl hn)) hok
    · exact Safe.halt _
  · exact Safe.halt _

theorem arrayPush {i : Instr} (h : ∀ j ∈ i.operands, c.Evals names d n (ev j) (ev' j)) :
    c.Gives names d n (Eval.arrayPush ev i) (Eval.arrayPush ev' i) c.Result := by
  refine Safe.bind (values _ h) fun vs k _ hvs => ?_
  split
  · rename_i array v
    have hv := hvs v (List.mem_cons_of_mem _ List.mem_cons_self)
    refine Safe.bind (listId _ array) fun id l hl _ => ?_
    rw [Run.pushItem_eq]
    refine Safe.bind (.onHeap _ fun heap heap' hs hn hok => ?_) fun _ _ _ _ =>
      Gives.pure none fun _ _ => .none
    exact hs.push (hv.mono (Nat.le_trans hl hn)) hok
  · exact Safe.halt _

theorem array {is : List Instr} (h : ∀ j ∈ is, c.Evals names d n (ev j) (ev' j)) :
    c.Gives names d n
      (Eval.values ev "array" is >>= fun vs =>
        Run.onStore fun s => .ok (some (s.newList vs).1, (s.newList vs).2))
      (Eval.values ev' "array" is >>= fun vs =>
        Run.onStore fun s => .ok (some (s.newList vs).1, (s.newList vs).2)) c.Result := by
  refine Safe.bind (values _ h) fun vs k _ hvs => Gives.onStore _ fun s t r hs hn hok => ?_
  cases hok
  refine ⟨hs.alloc (hvs.mono hn), by simp [Store.newList, Heap.alloc], .some ?_⟩
  simp [Store.newList, Heap.alloc, Value.Sound]

/-! ## Loops -/

/-- The rounds of a loop over a list. The runs are in the same state up to the round that makes the
    frame return; from then on each binds the loop variable or not, by its own policy. -/
theorem itemRounds {name : Name} (hname : names name) {is : List Instr}
    (h : ∀ j ∈ is, c.Evals names d n (ev j) (ev' j)) (hrest : Rests ev ev') {items : List Value}
    (hitems : c.All items n) :
    c.Safe names d n (Eval.itemRounds c.opts name (Eval.block ev is) items)
      (Eval.itemRounds c.opts' name (Eval.block ev' is) items) fun _ _ => True := by
  induction items with
  | nil => exact Safe.done ()
  | cons v rest ih =>
      intro s hs ho
      have hv := hitems v List.mem_cons_self
      have hlater : c.All rest n := fun w hw => hitems w (List.mem_cons_of_mem v hw)
      rw [Eval.itemRounds_of_present (Eval.not_leaves_of_open ho) hv.ne_absent,
        Eval.itemRounds_of_present (Eval.not_leaves_of_open ho) hv.ne_absent]
      have hround := Safe.seq (block h hrest) (ih hlater) ?_
      · exact hround (s.bindName name v) (hs.bindName name (hv.mono hs.size)) ho
      · intro u _ t t' hu huo hdone hk ht hnear
        -- the bodies do nothing any more, and the variable is bound to what is left, or not
        obtain ⟨hidle, hidle'⟩ := hrest.block is huo ht hdone
        have ht' : ¬ t'.Open := fun hopen => ht (hnear.open_iff.1 hopen)
        have hpresent : ∀ w ∈ rest, w ≠ .absent := fun w hw => (hlater w hw).ne_absent
        rw [Eval.itemRounds_of_filled hidle hpresent ht,
          Eval.itemRounds_of_filled hidle' hpresent ht']
        have hbinds : c.All (Eval.bindsLater c.opts rest) t.size := by
          intro w hw
          unfold Eval.bindsLater at hw
          split at hw
          · cases hw
          · exact (hlater w hw).mono (Nat.le_trans hu.size hk.size)
        exact .done (hk.bindAll name hbinds) trivial (hnear.bindsLater ht hname rest)

theorem countLoop {i : Instr} (hname : names i.value)
    (h : ∀ j ∈ i.children, c.Evals names d n (ev j) (ev' j))
    (hrest : Rests ev ev') :
    c.Evals names d n (Eval.countLoop c.opts ev i) (Eval.countLoop c.opts' ev' i) := by
  refine Safe.bind (values _ fun j hj => h j (Instr.mem_children_of_operands hj))
    fun vs k hk hvs => ?_
  split
  · rename_i first last step
    split
    · exact Safe.halt _
    · rename_i hstep
      have hfirst : Value.Fits first := hvs (.int first) List.mem_cons_self
      have hlast : Value.Fits last :=
        hvs (.int last) (List.mem_cons_of_mem _ List.mem_cons_self)
      -- the numbers of the range lie between bounds that fit
      have hfit : ∀ l < Eval.roundCount first last step, Value.Fits (first + l * step) := by
        intro l hl
        obtain ⟨hlow, hhigh⟩ := Eval.count_mem_range (Int.not_le.1 hstep) hl
        exact ⟨Int.le_trans hfirst.1 hlow, Int.le_of_lt (Int.lt_of_lt_of_le hhigh hlast.2)⟩
      rw [Eval.countRounds_eq_itemRounds hfit, Eval.countRounds_eq_itemRounds hfit]
      refine Safe.evals_none (itemRounds hname
        (fun j hj => Safe.mono (h j (Instr.mem_children_of_body hj)) hk) hrest fun v hv => ?_)
      obtain ⟨l, hl, rfl⟩ := Eval.mem_counts hv
      exact hfit l hl
  · exact Gives.evals (Gives.pure none fun _ _ => .none)
  · exact Safe.halt _

theorem eachLoop {i : Instr} (hname : names i.value)
    (h : ∀ j ∈ i.children, c.Evals names d n (ev j) (ev' j)) (hrest : Rests ev ev') :
    c.Evals names d n (Eval.eachLoop c.opts ev i) (Eval.eachLoop c.opts' ev' i) := by
  refine Safe.bind (firstOperand i) fun e k hk he => ?_
  have he := Safe.mono (h e (Instr.mem_children_of_operands he)) hk
  refine Safe.bind (required "each" he) fun v l hl _ => ?_
  refine Safe.bind (listId "each" v) fun id m hm _ => ?_
  have hitems : c.Gives names d m (Run.read fun s => (s.store.heap.items id).toList)
      (Run.read fun s => (s.store.heap.items id).toList) c.All :=
    .read _ fun s hs _ w hw => hs.sound.heap id w (Array.mem_toList_iff.1 hw)
  refine Safe.bind hitems fun items o ho hall => ?_
  have hn : n ≤ o := by omega
  exact Safe.evals_none (Safe.iterating id (itemRounds hname
    (fun j hj => Safe.mono (h j (Instr.mem_children_of_body hj)) hn) hrest hall))

/-- The rounds of a loop on a condition, of which there may be too many. -/
theorem whileRounds (hnt : ¬ c.total) {test test' : Run Bool} {body body' : Run Unit}
    (ht : c.Gives names d n test test' fun _ _ => True)
    (hb : c.Safe names d n body body' fun _ _ => True) (fuel : Nat) :
    c.Safe names d n (Eval.whileRounds test body fuel) (Eval.whileRounds test' body' fuel)
      fun _ _ => True := by
  induction fuel with
  | zero => exact fun _ _ _ => .outOfFuel hnt
  | succ fuel ih =>
      have hround : c.Safe names d n
          (test >>= fun holds =>
            if holds then body >>= fun _ => Eval.whileRounds test body fuel else pure ())
          (test' >>= fun holds =>
            if holds then body' >>= fun _ => Eval.whileRounds test' body' fuel else pure ())
          fun _ _ => True := by
        refine Safe.bind ht fun holds k hk _ => ?_
        split
        · refine Safe.seq (Safe.mono hb hk) (Safe.mono ih hk) ?_
          intro _ _ t t' _ _ _ hkt hopen hnear
          cases fuel with
          | zero => exact .outOfFuel hnt
          | succ fuel =>
              rw [Eval.whileRounds_of_not_open hopen,
                Eval.whileRounds_of_not_open fun hopen' => hopen (hnear.open_iff.1 hopen')]
              exact .done hkt trivial hnear
        · exact Safe.done ()
      intro s hs ho
      rw [Eval.whileRounds_of_open ho, Eval.whileRounds_of_open ho]
      exact hround s hs ho

theorem whileLoop (hnt : ¬ c.total) {i : Instr}
    (h : ∀ j ∈ i.children, c.Evals names d n (ev j) (ev' j)) (hrest : Rests ev ev') (fuel : Nat) :
    c.Evals names d n (Eval.whileLoop ev fuel i) (Eval.whileLoop ev' fuel i) := by
  refine Safe.bind (firstOperand i) fun e k hk he => ?_
  have he := Safe.mono (h e (Instr.mem_children_of_operands he)) hk
  have htest : c.Gives names d k (Eval.required ev "while" e >>= Eval.truth)
      (Eval.required ev' "while" e >>= Eval.truth) fun _ _ => True :=
    Safe.bind (required "while" he) fun v _ _ _ => truth v
  exact Safe.evals_none (whileRounds hnt htest
    (block (fun j hj => Safe.mono (h j (Instr.mem_children_of_body hj)) hk) hrest) fuel)

end Parts

/-! ## Calls -/

/-- The frames outside the frame of a call are among those of the caller. -/
theorem calleeOuter_frames {scope : Scope} {frame : Frame} {outer inner : List Frame} {k : Nat}
    (hframes : c.Frames (frame :: outer) k)
    (h : Eval.calleeOuter scope frame outer = .ok inner) : c.Frames inner k := by
  cases scope with
  | lexical =>
      cases h
      exact hframes
  | global =>
      cases h
      intro f hf
      rw [List.mem_singleton.1 hf]
      exact hframes _ (frame.root_mem outer)
  | unknown word => cases h

theorem frame_read : c.Gives names d n (Run.read (·.frame)) (Run.read (·.frame))
    fun f k => f.Sound c.program c.arguments k :=
  .read _ fun _ hs _ => hs.sound.frame

theorem Frames.cons {f : Frame} {outer : List Frame} {k : Nat}
    (hf : f.Sound c.program c.arguments k) (h : c.Frames outer k) : c.Frames (f :: outer) k := by
  intro g hg
  rcases List.mem_cons.1 hg with rfl | hg
  · exact hf
  · exact h g hg

/-- The bodies of the functions of the program match, one call deeper, if the depth allows the
    call. -/
def Bodies (c : Comparison) (d n : Nat) (ev ev' : Evaluator) : Prop :=
  ∀ f ∈ c.program.functions, ∀ inner k, n ≤ k → c.Frames inner k →
    (d : Int) < c.opts.maxCallDepth →
    c.Safe (fun _ => True) (d + 1) k (Eval.block (ev inner) f.body) (Eval.block (ev' inner) f.body)
      fun _ _ => True

theorem Bodies.mono {ev ev' : Evaluator} {k : Nat} (h : c.Bodies d n ev ev') (hle : n ≤ k) :
    c.Bodies d k ev ev' :=
  fun f hf inner l hl => h f hf inner l (Nat.le_trans hle hl)

section Calls

variable {ev ev' : Evaluator} {outer : List Frame} (houter : c.Frames outer n)
  (hbodies : c.Bodies d n ev ev')
include houter hbodies

theorem callClosure (scope : Scope) {f : FunctionDef} (hf : f ∈ c.program.functions)
    {args : List Value} (hargs : c.All args n) :
    c.Gives names d n (Eval.callClosure c.opts ev outer scope ⟨f.name, f.params, f.body⟩ args)
      (Eval.callClosure c.opts' ev' outer scope ⟨f.name, f.params, f.body⟩ args) c.Result := by
  unfold Eval.callClosure
  split
  · exact Safe.halt _
  · have hdepth : c.Gives names d n (Run.read (·.depth)) (Run.read (·.depth))
        fun depth _ => depth = d := .read _ fun _ hs _ => hs.depth
    refine Safe.bind hdepth fun depth k hk hd => ?_
    subst hd
    rw [c.maxCallDepth_eq]
    split
    · exact Safe.halt _
    · rename_i hdeep
      refine Safe.bind frame_read fun frame l hl hframe => ?_
      have hframes := Frames.cons hframe (houter.mono (Nat.le_trans hk hl))
      have hinner : c.Gives names depth l (Run.lift (Eval.calleeOuter scope frame outer))
          (Run.lift (Eval.calleeOuter scope frame outer)) c.Frames :=
        .lift _ fun inner _ hm hok => (calleeOuter_frames hframes hok).mono hm
      refine Safe.bind hinner fun inner m hm hin => ?_
      refine Safe.bind (.trace c.debug_eq _) fun _ o ho _ => ?_
      have hn : n ≤ o := by omega
      exact Gives.inFrame (Frame.sound_ofArguments (hargs.mono hn)) (Frame.returned_ofArguments _ _)
        (hbodies f hf inner o hn (hin.mono ho) (Int.not_le.1 hdeep))

theorem callValue (scope : Scope) {callee : Value} (hcallee : callee.Sound c.program c.arguments n)
    {args : List Value} (hargs : c.All args n) :
    c.Gives names d n (Eval.callValue c.opts ev outer scope callee args)
      (Eval.callValue c.opts' ev' outer scope callee args) c.Result := by
  unfold Eval.callValue
  cases callee with
  | native f => exact Safe.bind (.trace c.debug_eq _) fun _ _ hk _ => native f (hargs.mono hk)
  | closure f =>
      obtain ⟨g, hg, rfl⟩ := hcallee
      exact callClosure houter hbodies scope hg hargs
  | _ => exact Safe.halt _

theorem call {i : Instr}
    (h : ∀ j ∈ i.operands, c.Evals names d n (ev outer j) (ev' outer j)) :
    c.Gives names d n (Eval.call c.opts ev outer i) (Eval.call c.opts' ev' outer i) c.Result := by
  unfold Eval.call
  cases hops : i.operands with
  | nil => exact Safe.halt _
  | cons callee args =>
      rw [hops] at h
      refine Safe.bind (values _ fun j hj => h j (List.mem_cons_of_mem callee hj))
        fun vs k hk hvs => ?_
      refine Safe.bind (required _ (Safe.mono (h callee List.mem_cons_self) hk))
        fun f l hl hf => ?_
      have hn := Nat.le_trans hk hl
      exact callValue (houter.mono hn) (hbodies.mono hn) .lexical hf (hvs.mono hl)

theorem callNamed {i : Instr}
    (h : ∀ j ∈ i.operands, c.Evals names d n (ev outer j) (ev' outer j)) :
    c.Gives names d n (Eval.callNamed c.opts ev outer i) (Eval.callNamed c.opts' ev' outer i)
      c.Result := by
  refine Safe.bind (values _ h) fun vs k hk hvs => Safe.bind frame_read fun frame l hl hframe => ?_
  have hn := Nat.le_trans hk hl
  split
  · rename_i f hget
    obtain ⟨g, hg, hpresent⟩ := Option.bind_eq_some_iff.1 hget
    rw [Value.eq_of_present? hpresent]
    have hroot := Frames.cons hframe (houter.mono hn) _ (frame.root_mem outer)
    exact callValue (houter.mono hn) (hbodies.mono hn) .global (hroot.bindings _ g hg) (hvs.mono hl)
  · exact Safe.halt _

/-! ## All kinds -/

omit hbodies in
theorem variableValue (name : Name) :
    c.Gives names d n (Eval.variableValue outer name) (Eval.variableValue outer name)
      c.Result := by
  refine Safe.bind frame_read fun frame k hk hframe => ?_
  split
  · rename_i v hget
    obtain ⟨w, hw, hpresent⟩ := Option.bind_eq_some_iff.1 hget
    rw [Value.eq_of_present? hpresent]
    have hsound := Frame.sound_of_lookup? (Frames.cons hframe (houter.mono hk)) hw
    exact Gives.pure (some w) fun _ hl => .some (hsound.mono hl)
  · exact Safe.halt _

/-- An instruction whose parts match, performed. -/
theorem perform {i : Instr}
    (h : ∀ j ∈ i.children, c.Evals names d n (ev outer j) (ev' outer j))
    (hrest : Rests (ev outer) (ev' outer)) (hname : ∀ name, i.Loops name → names name)
    (hwhile : c.total → i.kind ≠ .whileLoop) (fuel : Nat) :
    c.Evals names d n (Eval.perform c.opts ev fuel outer i)
      (Eval.perform c.opts' ev' fuel outer i) := by
  have hops : ∀ j ∈ i.operands, c.Evals names d n (ev outer j) (ev' outer j) :=
    fun j hj => h j (Instr.mem_children_of_operands hj)
  unfold Eval.perform
  cases hk : i.kind with
  | value => exact Gives.evals (variableValue houter _)
  | assign =>
      refine Safe.bind (firstOperand i) fun e k hk he => ?_
      refine Safe.bind (required _ (Safe.mono (hops e he) hk)) fun v l _ hv => ?_
      exact Safe.bind (.bindName _ hv) fun _ _ _ _ =>
        Gives.evals (Gives.pure none fun _ _ => .none)
  | integer =>
      exact Gives.evals (Safe.bind (literal i) fun _ _ _ _ =>
        scalar fun _ => Value.parseInteger_scalar)
  | real =>
      exact Gives.evals (Safe.bind (literal i) fun _ _ _ _ =>
        scalar fun _ => Value.parseReal_scalar)
  | text =>
      refine Gives.evals (Gives.pure _ fun _ _ => .some ?_)
      split <;> trivial
  | integerCast =>
      exact Gives.evals (unary _ hops fun _ _ _ _ hw => Value.castInteger_scalar hw)
  | realCast => exact Gives.evals (unary _ hops fun _ _ _ _ _ => Value.castReal_scalar)
  | textCast => exact Gives.evals (unary _ hops fun _ _ _ _ _ => Value.castText_scalar)
  | array => exact Gives.evals (array hops)
  | add => exact Gives.evals (operator _ hops fun _ _ _ => Value.add_scalar)
  | subtract => exact Gives.evals (operator _ hops fun _ _ _ => Value.subtract_scalar)
  | multiply => exact Gives.evals (operator _ hops fun _ _ _ => Value.multiply_scalar)
  | divide => exact Gives.evals (operator _ hops fun _ _ _ => Value.divide_scalar)
  | and => exact Gives.evals (operator _ hops fun _ _ _ => Value.map_ofBool_scalar)
  | or => exact Gives.evals (operator _ hops fun _ _ _ => Value.map_ofBool_scalar)
  | not => exact Gives.evals (unary _ hops fun _ _ _ _ _ => Value.map_ofBool_scalar)
  | equal => exact Gives.evals (comparison _ hops fun _ _ _ => Value.map_ofBool_scalar)
  | greater => exact Gives.evals (comparison _ hops fun _ _ _ => Value.map_ofBool_scalar)
  | lower => exact Gives.evals (comparison _ hops fun _ _ _ => Value.map_ofBool_scalar)
  | call => exact Gives.evals (call houter hbodies hops)
  | callNamed => exact Gives.evals (callNamed houter hbodies hops)
  | giveBack =>
      refine Safe.bind (firstOperand i) fun e k hk he => ?_
      refine Safe.bind (required _ (Safe.mono (hops e he) hk)) fun v l _ hv => ?_
      exact Safe.evals_none (Safe.signalReturn hv)
  | ifThen => exact condition h hrest
  | ifElse => exact condition h hrest
  | countLoop => exact countLoop (hname _ ⟨.inl hk, rfl⟩) h hrest
  | eachLoop => exact eachLoop (hname _ ⟨.inr hk, rfl⟩) h hrest
  | whileLoop => exact whileLoop (fun ht => hwhile ht hk) h hrest fuel
  | arraySet => exact Gives.evals (arraySet hops)
  | arrayPush => exact Gives.evals (arrayPush hops)
  | unknown word => exact Safe.halt _

/-- One level of evaluation whose parts match. -/
theorem step {i : Instr}
    (h : ∀ j ∈ i.children, c.Evals names d n (ev outer j) (ev' outer j))
    (hrest : Rests (ev outer) (ev' outer)) (hname : ∀ name, i.Loops name → names name)
    (hwhile : c.total → i.kind ≠ .whileLoop) (fuel : Nat) :
    c.Evals names d n (Eval.step c.opts ev fuel outer i) (Eval.step c.opts' ev' fuel outer i) := by
  have hreturning : c.Gives names d n Run.returning Run.returning fun b _ => b = false :=
    .read _ fun s _ ho => by rw [show s.frame.returned = none from ho]; rfl
  refine Safe.bind hreturning fun b k hk hb => ?_
  subst hb
  refine Safe.bind (.trace c.debug_eq _) fun _ l hl _ => Safe.located i.span ?_
  exact Safe.mono (perform houter hbodies h hrest hname hwhile fuel) (Nat.le_trans hk hl)

end Calls

/-! ## Evaluation -/

/-- The check passes in a frame that has returned, and wherever evaluation from a good state comes
    to an end and matches. -/
structure Passes (c : Comparison) : Prop where
  idle : ∀ outer i s, ¬ s.Open → c.check outer i s (.done none s)
  evals : ∀ names d n fuel outer i s o, c.Frames outer n → c.Kept d n s → s.Open →
    (eval c.opts (fuel + 1) outer i s).finished = true →
    c.Matches names d s.size c.Given (eval c.opts (fuel + 1) outer i s) o → c.check outer i s o

/-- If evaluation is to come to an end, then there is fuel for the instructions inside `i` and, for
    each call that the depth still allows, for those of the whole program. -/
def Suffices (c : Comparison) (d fuel : Nat) (i : Instr) : Prop :=
  c.total → (∀ j ∈ i.parts, j.kind ≠ .whileLoop) ∧
    i.parts.length + (c.opts.maxCallDepth.toNat - d) * c.program.instructions.length ≤ fuel

theorem Suffices.child {fuel : Nat} {i j : Instr} (h : c.Suffices d (fuel + 1) i)
    (hj : j ∈ i.children) : c.Suffices d fuel j := by
  intro ht
  obtain ⟨hwhile, hle⟩ := h ht
  have hlt := Instr.length_parts_lt hj
  exact ⟨fun k hk => hwhile k (Instr.parts_subset_of_mem hj hk), by omega⟩

/-- A call takes the fuel of one whole program. -/
theorem Suffices.body {fuel : Nat} {i j : Instr} {f : FunctionDef} (h : c.Suffices d (fuel + 1) i)
    (hf : f ∈ c.program.functions) (hj : j ∈ f.body) (hd : (d : Int) < c.opts.maxCallDepth) :
    c.Suffices (d + 1) fuel j := by
  intro ht
  have hparts := (Instr.parts_sublist_partsAll hj).trans (Program.body_sublist_instructions hf)
  refine ⟨fun k hk => c.whileFree ht k (hparts.subset hk), ?_⟩
  have hle := (h ht).2
  have hpos : 0 < i.parts.length := List.length_pos_of_mem i.self_mem_parts
  -- the depth allows one call less, which frees the fuel of one whole program
  have hdepth : c.opts.maxCallDepth.toNat - d = c.opts.maxCallDepth.toNat - (d + 1) + 1 := by omega
  rw [hdepth, Nat.succ_mul] at hle
  have hlen := hparts.length_le
  omega

theorem watched_of_not_open (hpass : c.Passes) (fuel : Nat) (outer : List Frame) (i : Instr)
    {s : State} (hs : ¬ s.Open) :
    watched c.opts' c.check (fuel + 1) outer i s = .done none s :=
  watched_succ _ _ fuel outer i s (Eval.step_of_not_open c.opts' _ fuel outer i hs)
    (hpass.idle outer i s hs)

theorem rests (hpass : c.Passes) (fuel : Nat) (outer : List Frame) :
    Rests (eval c.opts fuel outer) (watched c.opts' c.check fuel outer) := by
  cases fuel with
  | zero => exact .inl fun _ _ => rfl
  | succ fuel =>
      exact .inr fun i s hs =>
        ⟨eval_of_not_open c.opts fuel outer i hs, watched_of_not_open hpass fuel outer i hs⟩

/-- Evaluation matches from every good state. -/
theorem eval_safe (hpass : c.Passes) {fuel : Nat} {outer : List Frame} {i : Instr}
    (houter : c.Frames outer n) (hnames : ∀ j ∈ i.parts, ∀ name, j.Loops name → names name)
    (hfuel : c.Suffices d fuel i) :
    c.Evals names d n (eval c.opts fuel outer i) (watched c.opts' c.check fuel outer i) := by
  -- the fuel pays for each level, whether it is inside an instruction or inside a call
  induction fuel generalizing names d n outer i with
  | zero =>
      refine fun _ _ _ => .outOfFuel fun ht => ?_
      have hpos : 0 < i.parts.length := List.length_pos_of_mem i.self_mem_parts
      have hle := (hfuel ht).2
      omega
  | succ fuel ih =>
      have hparts : ∀ j ∈ i.children,
          c.Evals names d n (eval c.opts fuel outer j) (watched c.opts' c.check fuel outer j) :=
        fun j hj => ih houter (fun k hk => hnames k (Instr.parts_subset_of_mem hj hk))
          (hfuel.child hj)
      have hbodies : c.Bodies d n (eval c.opts fuel) (watched c.opts' c.check fuel) := by
        intro f hf inner k _ hinner hd
        refine block (fun j hj => ?_) (rests hpass fuel inner)
        exact ih hinner (fun _ _ _ _ => trivial) (hfuel.body hf hj hd)
      -- the watched side adds its check to a level that matches
      have hstep := step houter hbodies hparts (rests hpass fuel outer)
        (hnames i i.self_mem_parts) (fun ht => (hfuel ht).1 i i.self_mem_parts) fuel
      intro s hs ho
      have hmatch : c.Matches names d s.size c.Given (eval c.opts (fuel + 1) outer i s) _ :=
        hstep s hs ho
      cases hfin : (eval c.opts (fuel + 1) outer i s).finished with
      | true =>
          have hright := watched_succ c.opts' c.check fuel outer i s rfl
            (hpass.evals names d n fuel outer i s _ houter hs ho hfin hmatch)
          rw [hright]
          exact hmatch
      | false =>
          have hout : eval c.opts (fuel + 1) outer i s = .outOfFuel :=
            Outcome.eq_of_not_finished hfin
          rw [hout]
          refine .outOfFuel fun ht => ?_
          rw [hmatch.finished ht] at hfin
          cases hfin

/-! ## Runs of the program -/

/-- The runs of the program match. -/
theorem run_safe (hpass : c.Passes) (fuel : Nat)
    (hfuel : c.total → c.program.fuelBound c.opts ≤ fuel) :
    c.Safe c.program.MainLoops 0 0 (c.program.run c.opts fuel c.arguments)
      (c.program.watchedRun c.opts' c.check fuel c.arguments) fun _ _ => True := by
  refine Safe.bind (.trace c.debug_eq _) fun _ k _ _ => ?_
  have hroot : c.Frames [Frame.ofProgram c.program c.arguments] k := by
    intro f hf
    rw [List.mem_singleton.1 hf]
    exact Frame.sound_ofProgram _ _ k
  refine block (fun i hi => eval_safe hpass hroot (fun j hj name hl => ?_) fun ht => ?_)
    (rests hpass fuel _)
  · exact ⟨j, (Instr.parts_sublist_partsAll hi).subset hj, hl⟩
  · have hparts :=
      (Instr.parts_sublist_partsAll hi).trans c.program.main_sublist_instructions
    refine ⟨fun j hj => c.whileFree ht j (hparts.subset hj), ?_⟩
    have hle := hfuel ht
    unfold Program.fuelBound at hle
    rw [Nat.succ_mul] at hle
    have hlen := hparts.length_le
    rw [Nat.sub_zero]
    omega

theorem start_kept (c : Comparison) (files : Files) (stdin : Input) :
    c.Kept 0 0 (Program.start files stdin) :=
  ⟨Program.start_sound _ _ files stdin, rfl, Nat.zero_le _⟩

end Comparison

end TagScript
