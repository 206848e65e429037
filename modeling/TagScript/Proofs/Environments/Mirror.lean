import TagScript.Proofs.Environments.Table
import TagScript.Proofs.Eval.Outcome

set_option autoImplicit false

/-! # Evaluation over linked environments is evaluation

A run over linked environments *mirrors* a run on one frame if it does to the session what that run
does to the frame of its environment, the store and the depth, and nothing else. Each part of an
evaluation over linked environments mirrors the same part of an evaluation; the body of a called
function does so in the environment of the call, whose frames outside are those of the caller or the
root as they are at that moment. -/

namespace TagScript.Linked

/-- A property of an environment in a session that makes it fit for evaluation: environments are
    inside older ones, a run in the environment keeps the property, and the environment of a
    function that is called from it has it. -/
structure Invariant (good : Nat → Session → Prop) : Prop where
  ordered {number : Nat} {s : Session} : good number s → s.Ordered
  lt {number : Nat} {s : Session} : good number s → number < s.environments.size
  withState {number : Nat} {s : Session} (t : State) :
    good number s → good number (s.withState number t)
  lexical {number : Nat} {s : Session} (frame : Frame) :
    good number s → good s.environments.size (s.enter (.environment number) frame)
  global {number : Nat} {s : Session} (frame : Frame) :
    good number s → good s.environments.size (s.enter (s.rootParent number) frame)

variable {good : Nat → Session → Prop} {α β : Type}

theorem bind_done {l : Linked α} {f : α → Linked β} {number : Nat} {s t : Session} {a : α}
    (h : l number s = .done a t) : (l >>= f) number s = f a number t := by
  show Linked.bind l f number s = _
  rw [Linked.bind, h]

/-- A parent for a function that is called from the environment, and the frames it has. -/
inductive Callee (s : Session) (number : Nat) : Parent → List Frame → Prop where
  | lexical : Callee s number (.environment number) (s.frame number :: s.outer number)
  | global : Callee s number (s.rootParent number) [(s.frame number).root (s.outer number)]

/-- A run that keeps the frame does not change what a function called after it sees. -/
theorem Callee.withState {s : Session} {number : Nat} {parent : Parent} {frames : List Frame}
    (h : Callee s number parent frames) (hs : s.Ordered) {t : State}
    (ht : t.frame = s.frame number) : Callee (s.withState number t) number parent frames := by
  have henvironments : (s.withState number t).environments = s.environments := by
    rw [Session.withState_of_frame ht]
  have hframe : (s.withState number t).frame number = s.frame number := by
    rw [Session.frame, henvironments, Session.frame]
  cases h with
  | lexical =>
      rw [← hframe, ← Session.outer_withState hs t]
      exact .lexical
  | global =>
      rw [← hframe, ← Session.outer_withState hs t, ← Session.rootParent_congr henvironments]
      exact .global

/-- The environment of a called function is fit for evaluation, and the frames outside it are those
    of its parent. -/
theorem Invariant.callee (inv : Invariant good) {number : Nat} {s : Session} (h : good number s)
    {parent : Parent} {frames : List Frame} (hparent : Callee s number parent frames)
    (frame : Frame) :
    good s.environments.size (s.enter parent frame) ∧
      (s.enter parent frame).outer s.environments.size = frames := by
  cases hparent with
  | lexical =>
      refine ⟨inv.lexical frame h, ?_⟩
      rw [Session.outer_enter (inv.ordered h), Session.framesOf_self (inv.ordered h) (inv.lt h)]
      rintro p ⟨⟩
      exact inv.lt h
  | global =>
      refine ⟨inv.global frame h, ?_⟩
      rw [Session.outer_enter (inv.ordered h),
        Session.framesOf_rootParent (inv.ordered h) (inv.lt h) (Nat.le_refl _)]
      intro p hp
      exact Nat.lt_of_le_of_lt (Session.rootParent_le (inv.ordered h) (inv.lt h) hp) (inv.lt h)

/-- The run over linked environments does what the run on the environment's frame does, and changes
    no other environment. The frames outside are `frames`. -/
def Mirrors (good : Nat → Session → Prop) (frames : List Frame) (l : Linked α) (m : Run α) : Prop :=
  ∀ number s, good number s → s.outer number = frames → l number s = s.perform number m

namespace Mirrors

variable {frames : List Frame}

theorem onFrame (m : Run α) : Mirrors good frames (liftM m) m := fun _ _ _ _ => rfl

theorem pure (a : α) : Mirrors good frames (Pure.pure a) (Pure.pure a) := by
  intro number s _ _
  exact congrArg (Outcome.done a) (s.withState_state number).symm

theorem bind (inv : Invariant good) {l : Linked α} {m : Run α} {f : α → Linked β} {g : α → Run β}
    (hl : Mirrors good frames l m) (hf : ∀ a, Mirrors good frames (f a) (g a)) :
    Mirrors good frames (l >>= f) (m >>= g) := by
  intro number s hgood hframes
  show Linked.bind l f number s = (Run.bind m g (s.state number)).mapState _
  unfold Linked.bind Run.bind
  rw [hl number s hgood hframes, Session.perform_eq]
  cases m (s.state number) with
  | done a t =>
      have houter := (Session.outer_withState (inv.ordered hgood) t).trans hframes
      exact (hf a number _ (inv.withState t hgood) houter).trans
        (Session.perform_withState (inv.lt hgood) (g a) t)
  | halted h t => rfl
  | outOfFuel => rfl

theorem outer_bind {f : List Frame → Linked α} {m : Run α}
    (h : Mirrors good frames (f frames) m) : Mirrors good frames (Linked.outer >>= f) m := by
  intro number s hgood hframes
  show f (s.outer number) number s = _
  rw [hframes]
  exact h number s hgood hframes

theorem rootFunction_bind {name : Name} {f : Option Value → Linked α} {g : Frame → Run α}
    (h : ∀ frame, Mirrors good frames
      (f (((frame.root frames).bindings.get? name).bind Value.present?)) (g frame)) :
    Mirrors good frames (Linked.rootFunction name >>= f) (Run.read (·.frame) >>= g) := by
  intro number s hgood hframes
  subst hframes
  exact h (s.frame number) number s hgood rfl

/-- A watch that finds nothing is not noticed. -/
theorem watch_bind {watch : Linked Unit}
    (hw : ∀ number s, good number s → watch number s = .done () s) {l : Linked α} {m : Run α}
    (h : Mirrors good frames l m) : Mirrors good frames (watch >>= fun _ => l) m :=
  fun number s hgood hframes => (bind_done (hw number s hgood)).trans (h number s hgood hframes)

theorem located (span : Option Span) {l : Linked α} {m : Run α} (h : Mirrors good frames l m) :
    Mirrors good frames (l.located span) (m.located span) := by
  intro number s hgood hframes
  unfold Linked.located
  rw [h number s hgood hframes, Session.perform_eq, Session.perform_eq]
  unfold Run.located
  cases m (s.state number) <;> rfl

theorem iterating (inv : Invariant good) (id : Nat) {l : Linked α} {m : Run α}
    (h : Mirrors good frames l m) :
    Mirrors good frames (l.iterating id) (m.iterating id) := by
  intro number s hgood hframes
  let t : State := { s.state number with
    store := { s.store with heap := s.store.heap.beginIteration id } }
  have hopen : { s with store := { s.store with heap := s.store.heap.beginIteration id } }
      = s.withState number t := (Session.withState_of_frame (t := t) rfl).symm
  have houter := (Session.outer_withState (inv.ordered hgood) t).trans hframes
  unfold Linked.iterating
  rw [hopen, h number _ (inv.withState t hgood) houter, Session.perform_withState (inv.lt hgood)]
  rw [Session.perform_eq]
  unfold Run.iterating
  show _ = ((m t).mapState _).mapState _
  cases m t <;> rfl

/-- A function's body in the environment of its call is its body in a frame of its own. -/
theorem inEnvironment {l : Linked Unit} {m : Run Unit} {number : Nat} {s : Session}
    {parent : Parent} {frame : Frame} (hcallee : good s.environments.size (s.enter parent frame))
    (hframes : (s.enter parent frame).outer s.environments.size = frames)
    (h : Mirrors good frames l m) :
    Linked.inEnvironment parent frame l number s = s.perform number (Run.inFrame frame m) := by
  have hlt : s.environments.size < (s.enter parent frame).environments.size := by
    rw [Session.size_enter]
    exact Nat.lt_succ_self _
  unfold Linked.inEnvironment
  rw [h _ _ hcallee hframes, Session.perform_eq, Session.state_enter, Session.perform_eq]
  show _ = (Run.inFrame frame m ⟨s.frame number, s.store, s.depth⟩).mapState _
  unfold Run.inFrame
  -- with the environment of the call its frame goes, and only the store stays changed
  have hleave : ∀ t, ((s.enter parent frame).withState s.environments.size t).leave
      = s.withState number { t with frame := s.frame number, depth := t.depth - 1 } := fun t =>
    (Session.leave_withState_enter t).trans
      (Session.withState_of_frame (t := { t with frame := s.frame number, depth := t.depth - 1 })
        rfl).symm
  cases m ⟨frame, s.store, s.depth + 1⟩ with
  | done _ t =>
      have hframe : ((s.enter parent frame).withState s.environments.size t).frame
          s.environments.size = t.frame := congrArg State.frame (Session.state_withState hlt t)
      simp only [Outcome.mapState, hleave, hframe]
  | halted k t => simp only [Outcome.mapState, hleave]
  | outOfFuel => rfl

/-! ## Parts of instructions -/

section Parts

variable {ev : Instr → Linked (Option Value)} {ev' : Instr → Run (Option Value)}
  (inv : Invariant good) (hev : ∀ i, Mirrors good frames (ev i) (ev' i))

include inv hev

theorem required (op : String) (i : Instr) :
    Mirrors good frames (Linked.required ev op i) (Eval.required ev' op i) := by
  refine bind inv (hev i) fun r => ?_
  cases r with
  | some v => exact pure v
  | none => exact onFrame _

theorem values (op : String) (is : List Instr) :
    Mirrors good frames (Linked.values ev op is) (Eval.values ev' op is) := by
  induction is with
  | nil => exact pure []
  | cons i rest ih => exact bind inv (required inv hev op i) fun _ => bind inv ih fun _ => pure _

theorem block (is : List Instr) :
    Mirrors good frames (Linked.block ev is) (Eval.block ev' is) := by
  induction is with
  | nil => exact pure ()
  | cons i rest ih => exact bind inv (hev i) fun _ => ih

/-! ## Kinds without calls -/

theorem operator (op : String) (i : Instr) (f : Heap → List Value → Except Halt Value) :
    Mirrors good frames (Linked.operator ev op i f) (Eval.operator ev' op i f) :=
  bind inv (values inv hev op _) fun _ => bind inv (onFrame _) fun _ =>
    bind inv (onFrame _) fun _ => pure _

theorem unary (op : String) (i : Instr) (f : Heap → Value → Except Halt Value) :
    Mirrors good frames (Linked.unary ev op i f) (Eval.unary ev' op i f) :=
  bind inv (onFrame _) fun _ => bind inv (required inv hev op _) fun _ =>
    bind inv (onFrame _) fun _ => bind inv (onFrame _) fun _ => pure _

theorem condition (i : Instr) :
    Mirrors good frames (Linked.condition ev i) (Eval.condition ev' i) :=
  bind inv (onFrame _) fun _ => bind inv (required inv hev _ _) fun _ =>
    bind inv (onFrame _) fun _ => bind inv (block inv hev _) fun _ => pure _

theorem arraySet (i : Instr) :
    Mirrors good frames (Linked.arraySet ev i) (Eval.arraySet ev' i) := by
  refine bind inv (values inv hev _ _) fun vs => ?_
  match vs with
  | [_, index, _] =>
      refine bind inv (onFrame _) fun id => ?_
      cases index with
      | int n => exact bind inv (onFrame _) fun _ => pure _
      | _ => exact onFrame _
  | [] => exact onFrame _
  | [_] => exact onFrame _
  | [_, _] => exact onFrame _
  | _ :: _ :: _ :: _ :: _ => exact onFrame _

theorem arrayPush (i : Instr) :
    Mirrors good frames (Linked.arrayPush ev i) (Eval.arrayPush ev' i) := by
  refine bind inv (values inv hev _ _) fun vs => ?_
  match vs with
  | [_, _] => exact bind inv (onFrame _) fun id => bind inv (onFrame _) fun _ => pure _
  | [] => exact onFrame _
  | [_] => exact onFrame _
  | _ :: _ :: _ :: _ => exact onFrame _

/-! ## Loops -/

omit hev in
theorem countRounds (opts : Options) (name : Name) (step : Int) {body : Linked Unit}
    {body' : Run Unit} (hb : Mirrors good frames body body') (rounds : Nat) (first : Int) :
    Mirrors good frames (Linked.countRounds opts name step body rounds first)
      (Eval.countRounds opts name step body' rounds first) := by
  induction rounds generalizing first with
  | zero => exact pure ()
  | succ rounds ih =>
      refine bind inv (onFrame _) fun leave => ?_
      split
      · exact pure ()
      · exact bind inv (onFrame _) fun _ => bind inv (onFrame _) fun _ => bind inv hb fun _ => ih _

omit hev in
theorem itemRounds (opts : Options) (name : Name) {body : Linked Unit} {body' : Run Unit}
    (hb : Mirrors good frames body body') (items : List Value) :
    Mirrors good frames (Linked.itemRounds opts name body items)
      (Eval.itemRounds opts name body' items) := by
  induction items with
  | nil => exact pure ()
  | cons v rest ih =>
      refine bind inv (onFrame _) fun leave => ?_
      split
      · exact pure ()
      · exact bind inv (onFrame _) fun _ => bind inv (onFrame _) fun _ => bind inv hb fun _ => ih

omit hev in
theorem whileRounds {test : Linked Bool} {test' : Run Bool} {body : Linked Unit} {body' : Run Unit}
    (ht : Mirrors good frames test test') (hb : Mirrors good frames body body') (fuel : Nat) :
    Mirrors good frames (Linked.whileRounds test body fuel)
      (Eval.whileRounds test' body' fuel) := by
  induction fuel with
  | zero => exact onFrame _
  | succ fuel ih =>
      refine bind inv (onFrame _) fun returned => ?_
      split
      · exact pure ()
      · refine bind inv ht fun holds => ?_
        split
        · exact bind inv hb fun _ => ih
        · exact pure ()

theorem countLoop (opts : Options) (i : Instr) :
    Mirrors good frames (Linked.countLoop opts ev i) (Eval.countLoop opts ev' i) := by
  refine bind inv (values inv hev _ _) fun vs => ?_
  match vs with
  | [first, last, step] =>
      cases first with
      | int first =>
          cases last with
          | int last =>
              cases step with
              | int step =>
                  by_cases hstep : step ≤ 0
                  · simp only [if_pos hstep]
                    exact onFrame _
                  · simp only [if_neg hstep]
                    exact bind inv (countRounds inv _ _ _ (block inv hev _) _ _) fun _ => pure _
              | _ => exact pure _
          | _ => exact pure _
      | _ => exact pure _
  | [] => exact onFrame _
  | [_] =>
      simp only
      exact onFrame _
  | [_, _] =>
      simp only
      exact onFrame _
  | _ :: _ :: _ :: _ :: _ =>
      simp only
      exact onFrame _

theorem eachLoop (opts : Options) (i : Instr) :
    Mirrors good frames (Linked.eachLoop opts ev i) (Eval.eachLoop opts ev' i) :=
  bind inv (onFrame _) fun _ => bind inv (required inv hev _ _) fun _ =>
    bind inv (onFrame _) fun _ => bind inv (onFrame _) fun _ =>
      bind inv (iterating inv _ (itemRounds inv _ _ (block inv hev _) _)) fun _ => pure _

theorem whileLoop (fuel : Nat) (i : Instr) :
    Mirrors good frames (Linked.whileLoop ev fuel i) (Eval.whileLoop ev' fuel i) :=
  bind inv (onFrame _) fun _ =>
    bind inv (whileRounds inv (bind inv (required inv hev _ _) fun _ => onFrame _)
      (block inv hev _) fuel) fun _ => pure _

end Parts

/-! ## Calls -/

section Calls

variable {ev : Instr → Linked (Option Value)} {ev' : Evaluator} (inv : Invariant good)
  (hev : ∀ frames i, Mirrors good frames (ev i) (ev' frames i))

include inv hev

/-- The trace line of a call changes nothing that the function sees. -/
theorem callBody (opts : Options) (line : State → Except Halt String) (frame : Frame)
    (body : List Instr) {number : Nat} {s : Session} (hgood : good number s) {parent : Parent}
    (hparent : Callee s number parent frames) :
    (liftM (Run.trace opts.debug line) >>= fun _ =>
        Linked.inEnvironment parent frame (Linked.block ev body)) number s
      = s.perform number (Run.trace opts.debug line >>= fun _ =>
          Run.inFrame frame (Eval.block (ev' frames) body)) := by
  show Linked.bind (Linked.onFrame (Run.trace opts.debug line)) _ number s
    = (Run.bind (Run.trace opts.debug line) _ (s.state number)).mapState _
  unfold Linked.bind Run.bind Linked.onFrame
  rw [Session.perform_eq]
  cases htrace : Run.trace opts.debug line (s.state number) with
  | done _ t =>
      -- the parent was chosen before the trace line, so it has to be the right one after it
      have ht : t.frame = s.frame number := by
        obtain ⟨_, rfl⟩ := Run.trace_state (congrArg Outcome.state? htrace)
        rfl
      obtain ⟨hcallee, hframes⟩ :=
        inv.callee (inv.withState t hgood) (hparent.withState (inv.ordered hgood) ht) frame
      exact (inEnvironment hcallee hframes (block inv (hev frames) body)).trans
        (Session.perform_withState (inv.lt hgood) _ t)
  | halted h t => rfl
  | outOfFuel => rfl

theorem callClosure (opts : Options) (scope : Scope) (f : Closure) (args : List Value) :
    Mirrors good frames (Linked.callClosure opts ev scope f args)
      (Eval.callClosure opts ev' frames scope f args) := by
  unfold Linked.callClosure Eval.callClosure
  split
  · exact onFrame _
  · refine bind inv (onFrame _) fun depth => ?_
    split
    · exact onFrame _
    · intro number s hgood hframes
      subst hframes
      cases scope with
      | lexical => exact callBody inv hev opts _ _ _ hgood .lexical
      | global => exact callBody inv hev opts _ _ _ hgood .global
      | unknown word => exact congrArg (Outcome.halted _) (s.withState_state number).symm

theorem callValue (opts : Options) (scope : Scope) (callee : Value) (args : List Value) :
    Mirrors good frames (Linked.callValue opts ev scope callee args)
      (Eval.callValue opts ev' frames scope callee args) := by
  cases callee with
  | native f => exact bind inv (onFrame _) fun _ => onFrame _
  | closure f => exact callClosure inv hev opts scope f args
  | _ => exact onFrame _

theorem call (opts : Options) (i : Instr) :
    Mirrors good frames (Linked.call opts ev i) (Eval.call opts ev' frames i) := by
  unfold Linked.call Eval.call
  cases i.operands with
  | nil => exact onFrame _
  | cons callee args =>
      exact bind inv (values inv (hev frames) _ _) fun _ =>
        bind inv (required inv (hev frames) _ _) fun _ => callValue inv hev opts _ _ _

theorem callNamed (opts : Options) {watch : Linked Unit}
    (hw : ∀ number s, good number s → watch number s = .done () s) (i : Instr) :
    Mirrors good frames (Linked.callNamed opts watch ev i) (Eval.callNamed opts ev' frames i) := by
  refine bind inv (values inv (hev frames) _ _) fun vs => ?_
  refine watch_bind hw (rootFunction_bind fun frame => ?_)
  cases ((frame.root frames).bindings.get? i.value).bind Value.present? with
  | some f => exact callValue inv hev opts _ _ _
  | none => exact onFrame _

/-! ## All kinds -/

theorem perform (opts : Options) {watch : Linked Unit}
    (hw : ∀ number s, good number s → watch number s = .done () s) (fuel : Nat) (i : Instr) :
    Mirrors good frames (Linked.perform opts watch ev fuel i)
      (Eval.perform opts ev' fuel frames i) := by
  have hin := hev frames
  unfold Linked.perform Eval.perform
  cases i.kind with
  | value => exact outer_bind (onFrame _)
  | assign =>
      exact bind inv (onFrame _) fun _ => bind inv (required inv hin _ _) fun _ =>
        bind inv (onFrame _) fun _ => pure _
  | integer => exact bind inv (onFrame _) fun _ => bind inv (onFrame _) fun _ => pure _
  | real => exact bind inv (onFrame _) fun _ => bind inv (onFrame _) fun _ => pure _
  | text => exact pure _
  | integerCast => exact unary inv hin _ _ _
  | realCast => exact unary inv hin _ _ _
  | textCast => exact unary inv hin _ _ _
  | array => exact bind inv (values inv hin _ _) fun _ => bind inv (onFrame _) fun _ => pure _
  | add => exact operator inv hin _ _ _
  | subtract => exact operator inv hin _ _ _
  | multiply => exact operator inv hin _ _ _
  | divide => exact operator inv hin _ _ _
  | and => exact operator inv hin _ _ _
  | or => exact operator inv hin _ _ _
  | not => exact unary inv hin _ _ _
  | equal => exact operator inv hin _ _ _
  | greater => exact operator inv hin _ _ _
  | lower => exact operator inv hin _ _ _
  | call => exact call inv hev opts i
  | callNamed => exact callNamed inv hev opts hw i
  | giveBack =>
      exact bind inv (onFrame _) fun _ => bind inv (required inv hin _ _) fun _ =>
        bind inv (onFrame _) fun _ => pure _
  | ifThen => exact condition inv hin i
  | ifElse => exact condition inv hin i
  | countLoop => exact countLoop inv hin opts i
  | eachLoop => exact eachLoop inv hin opts i
  | whileLoop => exact whileLoop inv hin fuel i
  | arraySet => exact arraySet inv hin i
  | arrayPush => exact arrayPush inv hin i
  | unknown word => exact onFrame _

theorem step (opts : Options) {watch : Linked Unit}
    (hw : ∀ number s, good number s → watch number s = .done () s) (fuel : Nat) (i : Instr) :
    Mirrors good frames (Linked.step opts watch ev fuel i) (Eval.step opts ev' fuel frames i) := by
  refine watch_bind hw (bind inv (onFrame _) fun returned => ?_)
  split
  · exact pure _
  · exact bind inv (onFrame _) fun _ => located _ (perform inv hev opts hw fuel i)

end Calls

/-- Evaluation over linked environments mirrors evaluation, as long as the watch finds nothing. -/
theorem eval (inv : Invariant good) (opts : Options) {watch : Linked Unit}
    (hw : ∀ number s, good number s → watch number s = .done () s) (fuel : Nat)
    (frames : List Frame) (i : Instr) :
    Mirrors good frames (Linked.eval opts watch fuel i) (TagScript.eval opts fuel frames i) := by
  induction fuel generalizing frames i with
  | zero => exact onFrame _
  | succ fuel ih => exact step inv ih opts hw fuel i

end Mirrors

end TagScript.Linked
