import TagScript.Proofs.Environments.Root
import TagScript.Proofs.Eval.Depth

set_option autoImplicit false

/-! # The depth is the number of calls in progress

Over linked environments every call in progress has its environment on the table, so the calls in
progress can be counted there. At every moment of a run that starts with no call in progress this
number is the depth that the run keeps, and it is within the limit (`Session.Counts`): a call puts
its environment on the table only if the depth is below the limit, and takes it off again however
its body ends. A native function has no environment and does not count. -/

namespace TagScript

/-- The environments on the table beyond the first `base` are as many as the depth says, and the
    depth is within the limit. -/
structure Session.Counts (limit : Int) (base : Nat) (s : Session) : Prop where
  calls : s.environments.size = base + s.depth
  within : (s.depth : Int) ≤ limit

namespace Session.Counts

variable {limit : Int} {base number : Nat} {s : Session}

theorem withState (h : s.Counts limit base) {t : State} (ht : t.depth = s.depth) :
    (s.withState number t).Counts limit base where
  calls := by
    rw [size_withState, h.calls]
    exact congrArg (base + ·) ht.symm
  within := by
    rw [show (s.withState number t).depth = s.depth from ht]
    exact h.within

theorem enter (h : s.Counts limit base) (hlimit : (s.depth : Int) < limit) (parent : Parent)
    (frame : Frame) : (s.enter parent frame).Counts limit base where
  calls := by
    rw [size_enter, h.calls]
    exact Nat.add_assoc base s.depth 1
  within := by
    show ((s.depth + 1 : Nat) : Int) ≤ limit
    omega

/-- A call that ends as deep as it started leaves the table as it was before. -/
theorem leave {t : Session} (ht : t.Counts limit base) (hs : s.Counts limit base)
    (hdepth : t.depth = s.depth + 1) : t.leave.Counts limit base ∧ t.leave.depth = s.depth := by
  have hleave : t.leave.depth = s.depth := by
    show t.depth - 1 = s.depth
    omega
  refine ⟨⟨?_, ?_⟩, hleave⟩
  · have hcalls := ht.calls
    show t.environments.pop.size = _
    rw [hleave, Array.size_pop]
    omega
  · rw [hleave]
    exact hs.within

end Session.Counts

namespace Linked

variable {limit : Int} {base : Nat} {α β : Type}

/-- From this session, in this environment, the watched run does what the run does, and however the
    run ends, its calls have been counted and are no longer in progress. -/
def CountsFrom (limit : Int) (base number : Nat) (s : Session) (l l' : Linked α) : Prop :=
  l' number s = l number s ∧
    ∀ t, (l number s).state? = some t → t.Counts limit base ∧ t.depth = s.depth

/-- The same from every session in which the calls have been counted. -/
def Counted (limit : Int) (base : Nat) (l l' : Linked α) : Prop :=
  ∀ number s, s.Counts limit base → CountsFrom limit base number s l l'

theorem read_bind (f : State → α) (g : α → Linked β) (number : Nat) (s : Session) :
    ((liftM (Run.read f) : Linked α) >>= g) number s = g (f (s.state number)) number s := by
  refine bind_done ?_
  exact congrArg (Outcome.done _) (s.withState_state number)

theorem CountsFrom.bind {l l' : Linked α} {f f' : α → Linked β} {number : Nat} {s : Session}
    (hl : CountsFrom limit base number s l l')
    (hf : ∀ a u, u.Counts limit base → u.depth = s.depth →
      CountsFrom limit base number u (f a) (f' a)) :
    CountsFrom limit base number s (l >>= f) (l' >>= f') := by
  obtain ⟨hsame, hends⟩ := hl
  show Linked.bind l' f' number s = Linked.bind l f number s ∧
    ∀ t, (Linked.bind l f number s).state? = some t → _
  unfold Linked.bind
  rw [hsame]
  cases h : l number s with
  | done a u =>
      rw [h] at hends
      obtain ⟨hu, hdepth⟩ := hends u rfl
      obtain ⟨hsame, hends⟩ := hf a u hu hdepth
      exact ⟨hsame, fun t ht => ⟨(hends t ht).1, (hends t ht).2.trans hdepth⟩⟩
  | halted k u =>
      rw [h] at hends
      exact ⟨rfl, hends⟩
  | outOfFuel => exact ⟨rfl, nofun⟩

namespace Counted

theorem onFrame {m : Run α} (hm : m.KeepsDepth) : Counted limit base (liftM m) (liftM m) := by
  refine fun number s hs => ⟨rfl, fun t ht => ?_⟩
  have hperform : (s.perform number m).state? = some t := ht
  rw [Session.perform_eq, Outcome.state?_mapState] at hperform
  obtain ⟨u, hu, rfl⟩ := Option.map_eq_some_iff.1 hperform
  have hdepth : u.depth = s.depth := hm _ u hu
  exact ⟨hs.withState hdepth, hdepth⟩

theorem pure (a : α) : Counted limit base (Pure.pure a) (Pure.pure a) := by
  refine fun number s hs => ⟨rfl, ?_⟩
  rintro t ⟨⟩
  exact ⟨hs, rfl⟩

theorem bind {l l' : Linked α} {f f' : α → Linked β} (hl : Counted limit base l l')
    (hf : ∀ a, Counted limit base (f a) (f' a)) : Counted limit base (l >>= f) (l' >>= f') :=
  fun number s hs => (hl number s hs).bind fun a u hu _ => hf a number u hu

theorem outer : Counted limit base Linked.outer Linked.outer := by
  refine fun number s hs => ⟨rfl, ?_⟩
  rintro t ⟨⟩
  exact ⟨hs, rfl⟩

theorem rootFunction (name : Name) :
    Counted limit base (Linked.rootFunction name) (Linked.rootFunction name) := by
  refine fun number s hs => ⟨rfl, ?_⟩
  rintro t ⟨⟩
  exact ⟨hs, rfl⟩

theorem calleeParent (scope : Scope) :
    Counted limit base (Linked.calleeParent scope) (Linked.calleeParent scope) := by
  refine fun number s hs => ⟨rfl, fun t ht => ?_⟩
  cases scope <;>
  · cases ht
    exact ⟨hs, rfl⟩

theorem located (span : Option Span) {l l' : Linked α} (h : Counted limit base l l') :
    Counted limit base (l.located span) (l'.located span) := by
  intro number s hs
  obtain ⟨hsame, hends⟩ := h number s hs
  unfold CountsFrom Linked.located
  rw [hsame]
  refine ⟨rfl, fun t ht => hends t ?_⟩
  cases hl : l number s <;> rw [hl] at ht <;> exact ht

theorem iterating (id : Nat) {l l' : Linked α} (h : Counted limit base l l') :
    Counted limit base (l.iterating id) (l'.iterating id) := by
  intro number s hs
  obtain ⟨hsame, hends⟩ := h number
    { s with store := { s.store with heap := s.store.heap.beginIteration id } }
    ⟨hs.calls, hs.within⟩
  unfold CountsFrom Linked.iterating
  rw [hsame]
  refine ⟨rfl, fun t ht => ?_⟩
  rw [Outcome.state?_mapState] at ht
  obtain ⟨u, hu, rfl⟩ := Option.map_eq_some_iff.1 ht
  obtain ⟨hcounts, hdepth⟩ := hends u hu
  exact ⟨⟨hcounts.calls, hcounts.within⟩, hdepth⟩

/-- The body of a function, in an environment of its own. -/
theorem inEnvironment {l l' : Linked Unit} (h : Counted limit base l l') (parent : Parent)
    (frame : Frame) {number : Nat} {s : Session} (hs : s.Counts limit base)
    (hlimit : (s.depth : Int) < limit) :
    CountsFrom limit base number s (Linked.inEnvironment parent frame l)
      (Linked.inEnvironment parent frame l') := by
  obtain ⟨hsame, hends⟩ := h s.environments.size _ (hs.enter hlimit parent frame)
  unfold CountsFrom Linked.inEnvironment
  rw [hsame]
  refine ⟨rfl, fun t ht => ?_⟩
  cases hl : l s.environments.size (s.enter parent frame) with
  | done a u =>
      rw [hl] at ht hends
      cases ht
      exact (hends u rfl).1.leave hs (hends u rfl).2
  | halted k u =>
      rw [hl] at ht hends
      cases ht
      exact (hends u rfl).1.leave hs (hends u rfl).2
  | outOfFuel =>
      rw [hl] at ht
      cases ht

/-! ## Parts of instructions -/

section Parts

variable {ev ev' : Instr → Linked (Option Value)}
  (hev : ∀ i, Counted limit base (ev i) (ev' i)) {opts : Options}
  (c : Congruence opts opts fun _ m _ => m.KeepsDepth)
include hev c

theorem required (op : String) (i : Instr) :
    Counted limit base (Linked.required ev op i) (Linked.required ev' op i) := by
  refine bind (hev i) fun r => ?_
  cases r with
  | some v => exact pure v
  | none => exact onFrame (c.halt rfl)

theorem values (op : String) (is : List Instr) :
    Counted limit base (Linked.values ev op is) (Linked.values ev' op is) := by
  induction is with
  | nil => exact pure []
  | cons i rest ih => exact bind (required hev c op i) fun _ => bind ih fun _ => pure _

omit c in
theorem block (is : List Instr) :
    Counted limit base (Linked.block ev is) (Linked.block ev' is) := by
  induction is with
  | nil => exact pure ()
  | cons i rest ih => exact bind (hev i) fun _ => ih

/-! ## Kinds without calls -/

theorem operator (op : String) (i : Instr) (f : Heap → List Value → Except Halt Value) :
    Counted limit base (Linked.operator ev op i f) (Linked.operator ev' op i f) :=
  bind (values hev c op _) fun _ => bind (onFrame c.heap) fun _ =>
    bind (onFrame (Run.KeepsDepth.lift _)) fun _ => pure _

theorem unary (op : String) (i : Instr) (f : Heap → Value → Except Halt Value) :
    Counted limit base (Linked.unary ev op i f) (Linked.unary ev' op i f) :=
  bind (onFrame (c.firstOperand i)) fun _ => bind (required hev c op _) fun _ =>
    bind (onFrame c.heap) fun _ => bind (onFrame (Run.KeepsDepth.lift _)) fun _ => pure _

theorem condition (i : Instr) :
    Counted limit base (Linked.condition ev i) (Linked.condition ev' i) :=
  bind (onFrame (c.firstOperand i)) fun _ => bind (required hev c _ _) fun _ =>
    bind (onFrame (c.truth _)) fun _ => bind (block hev _) fun _ => pure _

theorem arraySet (i : Instr) :
    Counted limit base (Linked.arraySet ev i) (Linked.arraySet ev' i) := by
  refine bind (values hev c _ _) fun vs => ?_
  split
  · refine bind (onFrame (c.listId _ _)) fun id => ?_
    split
    · rw [Run.setItem_eq]
      exact bind (onFrame (c.setItem _ _ _ _)) fun _ => pure _
    · exact onFrame (c.halt rfl)
  · exact onFrame (c.wrongCount _ _)

theorem arrayPush (i : Instr) :
    Counted limit base (Linked.arrayPush ev i) (Linked.arrayPush ev' i) := by
  refine bind (values hev c _ _) fun vs => ?_
  split
  · refine bind (onFrame (c.listId _ _)) fun id => ?_
    rw [Run.pushItem_eq]
    exact bind (onFrame (c.pushItem _ _ _)) fun _ => pure _
  · exact onFrame (c.wrongCount _ _)

/-! ## Loops -/

omit hev in
theorem countRounds (name : Name) (step : Int) {body body' : Linked Unit}
    (hb : Counted limit base body body') (rounds : Nat) (first : Int) :
    Counted limit base (Linked.countRounds opts name step body rounds first)
      (Linked.countRounds opts name step body' rounds first) := by
  induction rounds generalizing first with
  | zero => exact pure ()
  | succ rounds ih =>
      refine bind (onFrame c.leaveLoop) fun leave => ?_
      split
      · exact pure ()
      · exact bind (onFrame (Run.KeepsDepth.lift _)) fun _ =>
          bind (onFrame (c.bindName _ _)) fun _ => bind hb fun _ => ih _

omit hev in
theorem itemRounds (name : Name) {body body' : Linked Unit} (hb : Counted limit base body body')
    (items : List Value) :
    Counted limit base (Linked.itemRounds opts name body items)
      (Linked.itemRounds opts name body' items) := by
  induction items with
  | nil => exact pure ()
  | cons v rest ih =>
      refine bind (onFrame c.leaveLoop) fun leave => ?_
      split
      · exact pure ()
      · exact bind (onFrame (Run.KeepsDepth.lift _)) fun _ =>
          bind (onFrame (c.bindName _ _)) fun _ => bind hb fun _ => ih

omit hev in
theorem whileRounds {test test' : Linked Bool} {body body' : Linked Unit}
    (ht : Counted limit base test test') (hb : Counted limit base body body') (fuel : Nat) :
    Counted limit base (Linked.whileRounds test body fuel)
      (Linked.whileRounds test' body' fuel) := by
  induction fuel with
  | zero => exact onFrame (c.exhausted Run.exhausted)
  | succ fuel ih =>
      refine bind (onFrame c.returning) fun returned => ?_
      split
      · exact pure ()
      · refine bind ht fun holds => ?_
        split
        · exact bind hb fun _ => ih
        · exact pure ()

theorem countLoop (i : Instr) :
    Counted limit base (Linked.countLoop opts ev i) (Linked.countLoop opts ev' i) := by
  refine bind (values hev c _ _) fun vs => ?_
  split
  · split
    · exact onFrame (c.halt rfl)
    · exact bind (countRounds c _ _ (block hev _) _ _) fun _ => pure _
  · exact pure _
  · exact onFrame (c.wrongCount _ _)

theorem eachLoop (i : Instr) :
    Counted limit base (Linked.eachLoop opts ev i) (Linked.eachLoop opts ev' i) :=
  bind (onFrame (c.firstOperand i)) fun _ => bind (required hev c _ _) fun _ =>
    bind (onFrame (c.listId _ _)) fun id =>
      bind (onFrame (c.read fun _ heap _ => (heap.items id).toList)) fun _ =>
        bind (iterating _ (itemRounds c _ (block hev _) _)) fun _ => pure _

theorem whileLoop (fuel : Nat) (i : Instr) :
    Counted limit base (Linked.whileLoop ev fuel i) (Linked.whileLoop ev' fuel i) :=
  bind (onFrame (c.firstOperand i)) fun _ =>
    bind (whileRounds c (bind (required hev c _ _) fun _ => onFrame (c.truth _)) (block hev _)
      fuel) fun _ => pure _

end Parts

/-! ## Calls -/

section Calls

variable {opts : Options} {ev ev' : Instr → Linked (Option Value)}
  (hev : ∀ i, Counted opts.maxCallDepth base (ev i) (ev' i))
  (c : Congruence opts opts fun _ m _ => m.KeepsDepth)
include hev c

/-- The depth is checked before the call, and it is still the same when the body starts. -/
theorem callClosure (scope : Scope) (f : Closure) (args : List Value) :
    Counted opts.maxCallDepth base (Linked.callClosure opts ev scope f args)
      (Linked.callClosure opts ev' scope f args) := by
  unfold Linked.callClosure
  split
  · exact onFrame (c.halt rfl)
  · intro number s hs
    unfold CountsFrom
    rw [read_bind, read_bind]
    by_cases hlimit : opts.maxCallDepth ≤ (s.state number).depth
    · rw [if_pos hlimit, if_pos hlimit]
      exact onFrame (Run.KeepsDepth.halt _) number s hs
    · rw [if_neg hlimit, if_neg hlimit]
      have hbelow : (s.depth : Int) < opts.maxCallDepth := Int.lt_of_not_ge hlimit
      refine (calleeParent scope number s hs).bind fun parent u hu hdepth => ?_
      refine (onFrame (Run.KeepsDepth.trace _ _) number u hu).bind fun _ v hv hdepth' => ?_
      refine inEnvironment (block hev f.body) parent _ hv ?_
      rw [hdepth', hdepth]
      exact hbelow

theorem callValue (scope : Scope) (callee : Value) (args : List Value) :
    Counted opts.maxCallDepth base (Linked.callValue opts ev scope callee args)
      (Linked.callValue opts ev' scope callee args) := by
  cases callee with
  | native f =>
      exact bind (onFrame (c.trace (Eval.isTraceLine_text _))) fun _ => onFrame (c.native f args)
  | closure f => exact callClosure hev c scope f args
  | _ => exact onFrame (c.halt rfl)

theorem call (i : Instr) :
    Counted opts.maxCallDepth base (Linked.call opts ev i) (Linked.call opts ev' i) := by
  unfold Linked.call
  split
  · exact onFrame (c.halt trivial)
  · exact bind (values hev c _ _) fun _ => bind (required hev c _ _) fun _ =>
      callValue hev c _ _ _

theorem callNamed {watch watch' : Linked Unit}
    (hw : Counted opts.maxCallDepth base watch watch') (i : Instr) :
    Counted opts.maxCallDepth base (Linked.callNamed opts watch ev i)
      (Linked.callNamed opts watch' ev' i) := by
  refine bind (values hev c _ _) fun vs => bind hw fun _ => bind (rootFunction _) fun f? => ?_
  split
  · exact callValue hev c _ _ _
  · exact onFrame (c.halt rfl)

/-! ## All kinds -/

theorem perform {watch watch' : Linked Unit} (hw : Counted opts.maxCallDepth base watch watch')
    (fuel : Nat) (i : Instr) :
    Counted opts.maxCallDepth base (Linked.perform opts watch ev fuel i)
      (Linked.perform opts watch' ev' fuel i) := by
  unfold Linked.perform
  cases i.kind with
  | value => exact bind outer fun _ => onFrame (c.variableValue _ _)
  | assign =>
      exact bind (onFrame (c.firstOperand i)) fun _ => bind (required hev c _ _) fun _ =>
        bind (onFrame (c.bindName _ _)) fun _ => pure _
  | integer =>
      exact bind (onFrame (c.literal i)) fun _ => bind (onFrame (Run.KeepsDepth.lift _)) fun _ =>
        pure _
  | real =>
      exact bind (onFrame (c.literal i)) fun _ => bind (onFrame (Run.KeepsDepth.lift _)) fun _ =>
        pure _
  | text => exact pure _
  | integerCast => exact unary hev c _ _ _
  | realCast => exact unary hev c _ _ _
  | textCast => exact unary hev c _ _ _
  | array => exact bind (values hev c _ _) fun vs => onFrame (c.newList vs)
  | add => exact operator hev c _ _ _
  | subtract => exact operator hev c _ _ _
  | multiply => exact operator hev c _ _ _
  | divide => exact operator hev c _ _ _
  | and => exact operator hev c _ _ _
  | or => exact operator hev c _ _ _
  | not => exact unary hev c _ _ _
  | equal => exact operator hev c _ _ _
  | greater => exact operator hev c _ _ _
  | lower => exact operator hev c _ _ _
  | call => exact call hev c i
  | callNamed => exact callNamed hev c hw i
  | giveBack =>
      exact bind (onFrame (c.firstOperand i)) fun _ => bind (required hev c _ _) fun _ =>
        bind (onFrame (c.signalReturn _)) fun _ => pure _
  | ifThen => exact condition hev c i
  | ifElse => exact condition hev c i
  | countLoop => exact countLoop hev c i
  | eachLoop => exact eachLoop hev c i
  | whileLoop => exact whileLoop hev c fuel i
  | arraySet => exact arraySet hev c i
  | arrayPush => exact arrayPush hev c i
  | unknown word => exact onFrame (c.halt rfl)

theorem step {watch watch' : Linked Unit} (hw : Counted opts.maxCallDepth base watch watch')
    (fuel : Nat) (i : Instr) :
    Counted opts.maxCallDepth base (Linked.step opts watch ev fuel i)
      (Linked.step opts watch' ev' fuel i) := by
  refine bind hw fun _ => bind (onFrame c.returning) fun returned => ?_
  split
  · exact pure _
  · exact bind (onFrame (c.trace (Eval.isTraceLine_text _))) fun _ =>
      located _ (perform hev c hw fuel i)

end Calls

/-- Evaluation, by induction on the fuel. -/
theorem eval (opts : Options) {watch watch' : Linked Unit}
    (hw : Counted opts.maxCallDepth base watch watch') (fuel : Nat) (i : Instr) :
    Counted opts.maxCallDepth base (Linked.eval opts watch fuel i)
      (Linked.eval opts watch' fuel i) := by
  have c := Run.KeepsDepth.congruence opts
  induction fuel generalizing i with
  | zero => exact onFrame (c.exhausted Run.exhausted)
  | succ fuel ih => exact step ih c hw fuel i

/-- The run of a program. -/
theorem run (opts : Options) {watch watch' : Linked Unit}
    (hw : Counted opts.maxCallDepth base watch watch') (fuel : Nat) (p : Program) :
    Counted opts.maxCallDepth base (Linked.run opts watch fuel p)
      (Linked.run opts watch' fuel p) :=
  bind (onFrame (Run.KeepsDepth.trace _ _)) fun _ => block (eval opts hw fuel) p.main

/-- The watch for the calls to be counted is not noticed where they are. -/
theorem alarmUnless (limit : Int) (base : Nat) (alarm : Halt) :
    Counted limit base unwatched
      (Linked.alarmUnless (fun _ s => s.Counts limit base) alarm) := by
  intro number s hs
  refine ⟨if_pos hs, ?_⟩
  rintro t ⟨⟩
  exact ⟨hs, rfl⟩

end Counted

end Linked

end TagScript
