import TagScript.Proofs.Eval.Atomic
import TagScript.Proofs.Eval.Level

set_option autoImplicit false

/-! # The innermost frame

Native functions and calls leave the innermost frame as it is, however they end (`Run.KeepsFrame`).
An evaluation changes it by assignments, returns and blocks only, none of which gives a value, so
one that gives a value has left the frame as it was (`eval_keepsOnValue`). -/

namespace TagScript

/-! ## Calls keep the frame -/

/-- However the run ends, the innermost frame is as it was. -/
def Run.KeepsFrame {α : Type} (m : Run α) : Prop :=
  ∀ s t, (m s).state? = some t → t.frame = s.frame

namespace Run.KeepsFrame

variable {α β : Type}

theorem pure (a : α) : (Pure.pure a : Run α).KeepsFrame := by
  rintro s t ⟨⟩
  rfl

theorem halt (h : Halt) : (Run.halt h : Run α).KeepsFrame := by
  rintro s t ⟨⟩
  rfl

theorem read (f : State → α) : (Run.read f).KeepsFrame := by
  rintro s t ⟨⟩
  rfl

theorem lift (e : Except Halt α) : (Run.lift e).KeepsFrame := by
  cases e with
  | ok a => exact pure a
  | error h => exact halt h

theorem bind {m : Run α} {f : α → Run β} (hm : m.KeepsFrame) (hf : ∀ a, (f a).KeepsFrame) :
    (m >>= f).KeepsFrame := by
  intro s t ht
  have hs := hm s
  rw [Run.bind_apply] at ht
  cases h : m s with
  | done a u =>
      rw [h] at ht hs
      exact (hf a u t ht).trans (hs u rfl)
  | halted k u =>
      rw [h] at ht hs
      exact hs t ht
  | outOfFuel =>
      rw [h] at ht
      cases ht

theorem onStore (f : Store → Except Halt (α × Store)) : (Run.onStore f).KeepsFrame := by
  intro s t ht
  unfold Run.onStore at ht
  split at ht <;>
  · cases ht
    rfl

theorem setItem (op : String) (id : Nat) (index : Int) (v : Value) :
    (Run.setItem op id index v).KeepsFrame := by
  rw [Run.setItem_eq]
  exact onStore _

theorem pushItem (op : String) (id : Nat) (v : Value) : (Run.pushItem op id v).KeepsFrame := by
  rw [Run.pushItem_eq]
  exact onStore _

theorem trace (debug : Bool) (line : State → Except Halt String) :
    (Run.trace debug line).KeepsFrame := by
  intro s t ht
  obtain ⟨_, rfl⟩ := Run.trace_state ht
  rfl

theorem inFrame (frame : Frame) (m : Run Unit) : (Run.inFrame frame m).KeepsFrame := by
  intro s t ht
  unfold Run.inFrame at ht
  split at ht
  · cases ht
    rfl
  · cases ht
    rfl
  · cases ht

theorem native (f : Native) (args : List Value) : (f.call args).KeepsFrame := by
  unfold Native.call
  refine bind (lift _) fun _ => ?_
  rw [Native.perform_eq]
  unfold Native.atOnce
  split
  · exact bind (onStore _) fun _ => pure _
  · exact bind (onStore _) fun _ => halt _
  · exact bind (read _) fun _ => bind (lift _) fun _ => halt _
  · exact onStore _

theorem callValue (opts : Options) (ev : Evaluator) (outer : List Frame) (scope : Scope)
    (callee : Value) (args : List Value) :
    (Eval.callValue opts ev outer scope callee args).KeepsFrame := by
  unfold Eval.callValue
  split
  · exact bind (trace _ _) fun _ => native _ _
  · unfold Eval.callClosure
    split
    · exact halt _
    · refine bind (read _) fun depth => ?_
      split
      · exact halt _
      · exact bind (read _) fun _ => bind (lift _) fun _ => bind (trace _ _) fun _ => inFrame _ _
  · exact halt _

end Run.KeepsFrame

/-! ## Runs that are done -/

/-- The run, if it is done, keeps the property of the frame. -/
def Run.Keeps {α : Type} (P : Frame → Prop) (m : Run α) : Prop :=
  ∀ s a t, P s.frame → m s = .done a t → P t.frame

/-- The run, if it gives a value, keeps the property of the frame. -/
def Run.KeepsOnValue (P : Frame → Prop) (m : Run (Option Value)) : Prop :=
  ∀ s v t, P s.frame → m s = .done (some v) t → P t.frame

namespace Run

variable {α β : Type} {P : Frame → Prop}

theorem KeepsFrame.keeps {m : Run α} (hm : m.KeepsFrame) : m.Keeps P := by
  intro s a t hs h
  rw [hm s t (congrArg Outcome.state? h)]
  exact hs

theorem Keeps.bind {m : Run α} {f : α → Run β} (hm : m.Keeps P) (hf : ∀ a, (f a).Keeps P) :
    (m >>= f).Keeps P := by
  intro s b t hs h
  obtain ⟨a, u, hu, h⟩ := bind_eq_done h
  exact hf a u b t (hm s a u hs hu) h

/-- The run gives no value. -/
def GivesNone (m : Run (Option Value)) : Prop := ∀ s r t, m s = .done r t → r = none

theorem GivesNone.pure_none : (Pure.pure none : Run (Option Value)).GivesNone := by
  intro s r t h
  cases h
  rfl

theorem GivesNone.halt (h : Halt) : (Run.halt h : Run (Option Value)).GivesNone := by
  intro s r t h
  cases h

theorem GivesNone.bind {m : Run α} {f : α → Run (Option Value)} (hf : ∀ a, (f a).GivesNone) :
    (m >>= f).GivesNone := by
  intro s r t h
  obtain ⟨a, u, _, h⟩ := bind_eq_done h
  exact hf a u r t h

end Run

open Run (KeepsFrame)

namespace Eval

/-! ## Parts of instructions -/

theorem firstOperand_keepsFrame (i : Instr) : (firstOperand i).KeepsFrame := by
  unfold firstOperand
  split
  · exact .pure _
  · exact .halt _

theorem literal_keepsFrame (i : Instr) : (literal i).KeepsFrame := by
  unfold literal
  split
  · exact .pure _
  · exact .halt _

theorem listId_keepsFrame (op : String) (v : Value) : (listId op v).KeepsFrame := by
  unfold listId
  split
  · exact .pure _
  · exact .halt _

theorem truth_keepsFrame (v : Value) : (truth v).KeepsFrame :=
  .bind (.read _) fun _ => .lift _

theorem variableValue_keepsFrame (outer : List Frame) (name : Name) :
    (variableValue outer name).KeepsFrame := by
  refine .bind (.read _) fun _ => ?_
  split
  · exact .pure _
  · exact .halt _

variable {P : Frame → Prop}

section Parts

variable {ev : Instr → Run (Option Value)} (hev : ∀ i, (ev i).KeepsOnValue P)
include hev

theorem required_keeps (op : String) (i : Instr) : (required ev op i).Keeps P := by
  intro s v t hs h
  exact hev i s v t hs (required_eq_done h)

theorem values_keeps (op : String) (is : List Instr) : (values ev op is).Keeps P := by
  induction is with
  | nil => exact (KeepsFrame.pure _).keeps
  | cons i rest ih =>
      exact .bind (required_keeps hev op i) fun _ => .bind ih fun _ => (KeepsFrame.pure _).keeps

theorem operator_keeps (op : String) (i : Instr) (f : Heap → List Value → Except Halt Value) :
    (operator ev op i f).Keeps P :=
  .bind (values_keeps hev op _) fun _ =>
    (KeepsFrame.bind (.read _) fun _ => .bind (.lift _) fun _ => .pure _).keeps

theorem unary_keeps (op : String) (i : Instr) (f : Heap → Value → Except Halt Value) :
    (unary ev op i f).Keeps P :=
  .bind (firstOperand_keepsFrame i).keeps fun _ => .bind (required_keeps hev op _) fun _ =>
    (KeepsFrame.bind (.read _) fun _ => .bind (.lift _) fun _ => .pure _).keeps

theorem arraySet_keeps (i : Instr) : (arraySet ev i).Keeps P := by
  refine .bind (values_keeps hev _ _) fun vs => ?_
  split
  · refine (KeepsFrame.bind (listId_keepsFrame _ _) fun id => ?_).keeps
    split
    · exact .bind (.setItem _ _ _ _) fun _ => .pure _
    · exact .halt _
  · exact (KeepsFrame.lift _).keeps

theorem arrayPush_keeps (i : Instr) : (arrayPush ev i).Keeps P := by
  refine .bind (values_keeps hev _ _) fun vs => ?_
  split
  · exact (KeepsFrame.bind (listId_keepsFrame _ _) fun id =>
      .bind (.pushItem _ _ _) fun _ => .pure _).keeps
  · exact (KeepsFrame.lift _).keeps

end Parts

section Calls

variable {ev : Evaluator} (hev : ∀ outer i, (ev outer i).KeepsOnValue P)
include hev

theorem call_keeps (opts : Options) (outer : List Frame) (i : Instr) :
    (call opts ev outer i).Keeps P := by
  unfold call
  split
  · exact (KeepsFrame.halt _).keeps
  · exact .bind (values_keeps (hev outer) _ _) fun _ =>
      .bind (required_keeps (hev outer) _ _) fun _ => (KeepsFrame.callValue _ _ _ _ _ _).keeps

theorem callNamed_keeps (opts : Options) (outer : List Frame) (i : Instr) :
    (callNamed opts ev outer i).Keeps P := by
  refine .bind (values_keeps (hev outer) _ _) fun _ => .bind (KeepsFrame.read _).keeps fun _ => ?_
  split
  · exact (KeepsFrame.callValue _ _ _ _ _ _).keeps
  · exact (KeepsFrame.halt _).keeps

end Calls

end Eval

/-! ## Instructions -/

/-- The kinds of instructions that fill the return slot or run blocks of their own frame. -/
def Kind.mayReturn : Kind → Bool
  | .giveBack | .ifThen | .ifElse | .countLoop | .eachLoop | .whileLoop => true
  | _ => false

namespace Eval

variable {P : Frame → Prop} {ev : Evaluator}

/-- All other kinds keep a property of the frame, assignments too if to bind a name keeps it. -/
theorem perform_keeps (hev : ∀ outer i, (ev outer i).KeepsOnValue P) (opts : Options) (fuel : Nat)
    (outer : List Frame) {i : Instr} (hi : i.kind.mayReturn = false)
    (hbind : i.kind = .assign → ∀ f name v, P f → P (f.bind name v)) :
    (perform opts ev fuel outer i).Keeps P := by
  have hin := hev outer
  unfold perform
  cases hk : i.kind with
  | giveBack | ifThen | ifElse | countLoop | eachLoop | whileLoop =>
      rw [hk] at hi
      cases hi
  | value => exact (variableValue_keepsFrame _ _).keeps
  | assign =>
      refine .bind (firstOperand_keepsFrame i).keeps fun _ => .bind (required_keeps hin _ _)
        fun v s r t hs h => ?_
      cases h
      exact hbind hk s.frame i.value v hs
  | integer | real =>
      exact (KeepsFrame.bind (literal_keepsFrame i) fun _ => .bind (.lift _) fun _ =>
        .pure _).keeps
  | text => exact (KeepsFrame.pure _).keeps
  | integerCast | realCast | textCast | not => exact unary_keeps hin _ _ _
  | array => exact .bind (values_keeps hin _ _) fun vs =>
      (KeepsFrame.onStore fun s => .ok (some (s.newList vs).1, (s.newList vs).2)).keeps
  | add | subtract | multiply | divide | and | or | equal | greater | lower =>
      exact operator_keeps hin _ _ _
  | call => exact call_keeps hev _ _ _
  | callNamed => exact callNamed_keeps hev _ _ _
  | arraySet => exact arraySet_keeps hin _
  | arrayPush => exact arrayPush_keeps hin _
  | unknown word => exact (KeepsFrame.halt _).keeps

theorem condition_givesNone (ev : Instr → Run (Option Value)) (i : Instr) :
    (condition ev i).GivesNone :=
  .bind fun _ => .bind fun _ => .bind fun _ => .bind fun _ => .pure_none

theorem countLoop_givesNone (opts : Options) (ev : Instr → Run (Option Value)) (i : Instr) :
    (countLoop opts ev i).GivesNone := by
  refine .bind fun vs => ?_
  split
  · split
    · exact .halt _
    · exact .bind fun _ => .pure_none
  · exact .pure_none
  · exact .halt _

/-- Assignments, returns, conditions and loops give no value. -/
theorem perform_givesNone (opts : Options) (ev : Evaluator) (fuel : Nat) (outer : List Frame)
    {i : Instr} (hi : i.kind = .assign ∨ i.kind.mayReturn = true) :
    (perform opts ev fuel outer i).GivesNone := by
  unfold perform
  cases hk : i.kind with
  | assign | giveBack => exact .bind fun _ => .bind fun _ => .bind fun _ => .pure_none
  | ifThen | ifElse => exact condition_givesNone _ _
  | countLoop => exact countLoop_givesNone _ _ _
  | eachLoop =>
      exact .bind fun _ => .bind fun _ => .bind fun _ => .bind fun _ => .bind fun _ => .pure_none
  | whileLoop => exact .bind fun _ => .bind fun _ => .pure_none
  | _ =>
      rw [hk] at hi
      rcases hi with hi | hi <;> cases hi

theorem perform_keepsOnValue (hev : ∀ outer i, (ev outer i).KeepsOnValue P) (opts : Options)
    (fuel : Nat) (outer : List Frame) (i : Instr) :
    (perform opts ev fuel outer i).KeepsOnValue P := by
  intro s v t hs h
  -- what may change the frame gives no value, and everything else leaves it as it is
  by_cases hi : i.kind = .assign ∨ i.kind.mayReturn = true
  · cases perform_givesNone opts ev fuel outer hi s (some v) t h
  · obtain ⟨hassign, hmay⟩ := not_or.1 hi
    have hkeeps := perform_keeps hev opts fuel outer (Bool.eq_false_iff.2 hmay)
      fun hk => absurd hk hassign
    exact hkeeps s (some v) t hs h

end Eval

theorem eval_keepsOnValue (P : Frame → Prop) (opts : Options) (fuel : Nat) (outer : List Frame)
    (i : Instr) : (eval opts fuel outer i).KeepsOnValue P := by
  induction fuel generalizing outer i with
  | zero =>
      intro s v t _ h
      cases h
  | succ fuel ih =>
      intro s v t hs h
      by_cases ho : s.Open
      · refine Eval.perform_keepsOnValue ih opts fuel outer i _ v t ?_ (perform_of_eval ho h)
        rw [State.traced_frame]
        exact hs
      · rw [eval_of_not_open opts fuel outer i ho] at h
        cases h

/-- Operands that give values leave the frame as it was. -/
theorem values_frame {opts : Options} {fuel : Nat} {outer : List Frame} {op : String}
    {is : List Instr} {s t : State} {vs : List Value}
    (h : Eval.values (eval opts fuel outer) op is s = .done vs t) : t.frame = s.frame :=
  Eval.values_keeps (eval_keepsOnValue (· = s.frame) opts fuel outer) op is s vs t rfl h

end TagScript
