import TagScript.Eval.Step
import TagScript.Proofs.Eval.Outcome

set_option autoImplicit false

/-! # One level of evaluation

What an evaluation does first, depending on the state in which it starts: in a frame that has
returned it does nothing; in an open one it writes its trace line and then performs the
instruction. -/

namespace TagScript

/-- The innermost frame has not returned. -/
def State.Open (s : State) : Prop := s.frame.returned = none

theorem State.not_open_iff {s : State} : ¬ s.Open ↔ ∃ v, s.frame.returned = some v :=
  Option.ne_none_iff_exists'

/-- Changes of the bindings, one after another, leave the slot alone. -/
theorem Frame.returned_foldl {α : Type} {g : Frame → α → Frame}
    (hg : ∀ f a, (g f a).returned = f.returned) (l : List α) (f : Frame) :
    (l.foldl g f).returned = f.returned := by
  induction l generalizing f with
  | nil => rfl
  | cons a rest ih => exact (ih (g f a)).trans (hg f a)

/-- The frame of a call is open. -/
theorem Frame.returned_ofArguments (params : List String) (args : List Value) :
    (Frame.ofArguments params args).returned = none := by
  unfold Frame.ofArguments
  rw [Frame.returned_foldl]
  intro f a
  rfl

/-- The state after the trace line of an instruction. -/
def State.traced (opts : Options) (i : Instr) (s : State) : State :=
  if opts.debug then { s with store := s.store.trace (Eval.instrLine i) } else s

@[simp] theorem State.traced_frame (opts : Options) (i : Instr) (s : State) :
    (s.traced opts i).frame = s.frame := by
  unfold State.traced
  split <;> rfl

theorem State.Open.traced {s : State} (h : s.Open) (opts : Options) (i : Instr) :
    (s.traced opts i).Open := by
  unfold State.Open
  rw [State.traced_frame]
  exact h

theorem State.traced_of_not_debug {opts : Options} (h : opts.debug = false) (i : Instr)
    (s : State) : s.traced opts i = s := by
  rw [State.traced, h]
  rfl

theorem Run.trace_instrLine (opts : Options) (i : Instr) (s : State) :
    Run.trace opts.debug (fun _ => .ok (Eval.instrLine i)) s = .done () (s.traced opts i) := by
  unfold State.traced
  cases opts.debug <;> rfl

theorem Run.located_eq_done {α : Type} {span : Option Span} {m : Run α} {s t : State} {a : α} :
    Run.located span m s = .done a t ↔ m s = .done a t := by
  unfold Run.located
  cases m s <;> simp

namespace Eval

theorem firstOperand_of_head? {i e : Instr} (h : i.operands.head? = some e) :
    firstOperand i = pure e := by
  unfold firstOperand
  cases hi : i.operands with
  | nil =>
      rw [hi] at h
      cases h
  | cons e' rest =>
      rw [hi] at h
      cases h
      rfl

theorem firstOperand_bind_eq_done {α : Type} {i : Instr} {f : Instr → Run α} {s t : State} {a : α}
    (h : (firstOperand i >>= f) s = .done a t) :
    ∃ e, i.operands.head? = some e ∧ f e s = .done a t := by
  unfold firstOperand at h
  cases hi : i.operands with
  | nil =>
      rw [hi] at h
      cases h
  | cons e rest =>
      rw [hi] at h
      exact ⟨e, rfl, h⟩

theorem truth_bind_eq_done {α : Type} {v : Value} {f : Bool → Run α} {s t : State} {a : α}
    (h : (truth v >>= f) s = .done a t) :
    ∃ holds, v.isTruthy s.store.heap = .ok holds ∧ f holds s = .done a t := by
  unfold truth at h
  rw [bind_assoc, Run.read_bind] at h
  exact Run.lift_bind_eq_done h

theorem required_eq_done {ev : Instr → Run (Option Value)} {op : String} {i : Instr} {s t : State}
    {v : Value} (h : required ev op i s = .done v t) : ev i s = .done (some v) t := by
  obtain ⟨r, u, hr, h⟩ := Run.bind_eq_done h
  cases r with
  | some w =>
      cases h
      exact hr
  | none => cases h

theorem required_done {ev : Instr → Run (Option Value)} {i : Instr} {s t : State} {v : Value}
    (op : String) (h : ev i s = .done (some v) t) : required ev op i s = .done v t :=
  Run.bind_done h

theorem block_append (ev : Instr → Run (Option Value)) (is rest : List Instr) :
    block ev (is ++ rest) = block ev is >>= fun _ => block ev rest := by
  induction is with
  | nil => rfl
  | cons i is ih =>
      show (ev i >>= fun _ => block ev (is ++ rest)) = _
      rw [ih, ← bind_assoc]
      rfl

/-- A block of instructions none of which does anything does nothing. -/
theorem block_of_idle {ev : Instr → Run (Option Value)} {s : State}
    (h : ∀ i, ev i s = .done none s) (is : List Instr) : block ev is s = .done () s := by
  induction is with
  | nil => rfl
  | cons i rest ih =>
      unfold block
      rw [Run.bind_done (h i)]
      exact ih

/-- A frame that has returned is left alone. -/
theorem step_of_not_open (opts : Options) (ev : Evaluator) (fuel : Nat) (outer : List Frame)
    (i : Instr) {s : State} (h : ¬ s.Open) : step opts ev fuel outer i s = .done none s := by
  obtain ⟨v, hv⟩ := State.not_open_iff.1 h
  have hret : Run.returning s = .done true s := by simp [Run.returning, hv]
  unfold step
  rw [Run.bind_done hret]
  rfl

/-- In an open frame the instruction is performed. -/
theorem step_of_open (opts : Options) (ev : Evaluator) (fuel : Nat) (outer : List Frame)
    (i : Instr) {s : State} (h : s.Open) :
    step opts ev fuel outer i s
      = Run.located i.span (perform opts ev fuel outer i) (s.traced opts i) := by
  have hret : Run.returning s = .done false s := by
    simp [Run.returning, show s.frame.returned = none from h]
  unfold step
  rw [Run.bind_done hret]
  exact Run.bind_done (Run.trace_instrLine opts i s)

end Eval

/-- Evaluation in a frame that has returned does nothing. -/
theorem eval_of_not_open (opts : Options) (fuel : Nat) (outer : List Frame) (i : Instr) {s : State}
    (h : ¬ s.Open) : eval opts (fuel + 1) outer i s = .done none s :=
  Eval.step_of_not_open opts _ fuel outer i h

/-- Evaluation in an open frame performs the instruction. -/
theorem eval_of_open (opts : Options) (fuel : Nat) (outer : List Frame) (i : Instr) {s : State}
    (h : s.Open) : eval opts (fuel + 1) outer i s
      = Run.located i.span (Eval.perform opts (eval opts fuel) fuel outer i) (s.traced opts i) :=
  Eval.step_of_open opts _ fuel outer i h

/-- What an evaluation that is done did: it performed the instruction. -/
theorem perform_of_eval {opts : Options} {fuel : Nat} {outer : List Frame} {i : Instr} {s t : State}
    {r : Option Value} (h : s.Open) (he : eval opts (fuel + 1) outer i s = .done r t) :
    Eval.perform opts (eval opts fuel) fuel outer i (s.traced opts i) = .done r t := by
  rw [eval_of_open opts fuel outer i h] at he
  exact Run.located_eq_done.1 he

/-- A block in a frame that has returned does nothing. -/
theorem block_of_not_open (opts : Options) (fuel : Nat) (outer : List Frame) (is : List Instr)
    {s : State} (h : ¬ s.Open) : Eval.block (eval opts (fuel + 1) outer) is s = .done () s :=
  Eval.block_of_idle (fun i => eval_of_not_open opts fuel outer i h) is

end TagScript
