import TagScript.Proofs.Eval.Congruence
import TagScript.Proofs.Eval.Native

set_option autoImplicit false

/-! # The depth of calls after a run

A call counts itself while its body runs and takes itself off the count however the body ends. So
every evaluation, every call and every run of a program leaves the depth as it found it
(`Run.KeepsDepth.congruence`), also where it halts with any number of calls in progress. -/

namespace TagScript

/-- However the run ends, as many calls are in progress as before. -/
def Run.KeepsDepth {α : Type} (m : Run α) : Prop :=
  ∀ s t, (m s).state? = some t → t.depth = s.depth

namespace Run.KeepsDepth

variable {α β : Type}

/-- A run that ends in the state it started in, if it ends. -/
theorem of_state_eq {m : Run α} (h : ∀ s t, (m s).state? = some t → t = s) : m.KeepsDepth := by
  intro s t ht
  rw [h s t ht]

theorem halt (h : Halt) : (Run.halt h : Run α).KeepsDepth := by
  refine of_state_eq fun _ _ ht => ?_
  cases ht
  rfl

theorem lift (e : Except Halt α) : (Run.lift e).KeepsDepth := by
  cases e with
  | ok a =>
      refine of_state_eq fun _ _ ht => ?_
      cases ht
      rfl
  | error h => exact halt h

theorem modify {f : State → State} (hf : ∀ s, (f s).depth = s.depth) :
    (Run.modify f).KeepsDepth := by
  rintro s t ⟨⟩
  exact hf s

theorem onStore (f : Store → Except Halt (α × Store)) : (Run.onStore f).KeepsDepth := by
  intro s t ht
  unfold Run.onStore at ht
  split at ht <;>
  · cases ht
    rfl

theorem bind {m : Run α} {f : α → Run β} (hm : m.KeepsDepth) (hf : ∀ a, (f a).KeepsDepth) :
    (m >>= f).KeepsDepth := by
  intro s t ht
  have hs := hm s
  rw [bind_apply] at ht
  cases h : m s with
  | done a u =>
      rw [h] at ht hs
      exact (hf a u t ht).trans (hs u rfl)
  | halted k u =>
      rw [h] at ht hs
      exact hs t ht
  | outOfFuel =>
      rw [h] at ht
      cases ht

theorem trace (debug : Bool) (line : State → Except Halt String) :
    (Run.trace debug line).KeepsDepth := by
  intro s t ht
  obtain ⟨_, rfl⟩ := trace_state ht
  rfl

theorem located (span : Option Span) {m : Run α} (hm : m.KeepsDepth) :
    (Run.located span m).KeepsDepth := by
  intro s t ht
  apply hm s t
  unfold Run.located at ht
  cases h : m s <;> rw [h] at ht <;> exact ht

theorem iterating (id : Nat) {m : Run α} (hm : m.KeepsDepth) :
    (Run.iterating id m).KeepsDepth := by
  intro s t ht
  unfold Run.iterating at ht
  rw [Outcome.state?_mapState] at ht
  obtain ⟨u, hu, rfl⟩ := Option.map_eq_some_iff.1 ht
  exact hm { s with store := { s.store with heap := s.store.heap.beginIteration id } } u hu

/-- A call is one deeper while it lasts. -/
theorem inFrame (frame : Frame) {m : Run Unit} (hm : m.KeepsDepth) :
    (Run.inFrame frame m).KeepsDepth := by
  intro s t ht
  have hin := hm { s with frame, depth := s.depth + 1 }
  unfold Run.inFrame at ht
  cases h : m { s with frame, depth := s.depth + 1 } with
  | done a u =>
      rw [h] at ht hin
      cases ht
      simp [hin u rfl]
  | halted k u =>
      rw [h] at ht hin
      cases ht
      simp [hin u rfl]
  | outOfFuel =>
      rw [h] at ht
      cases ht

/-- Every part of an evaluation keeps the depth. -/
theorem congruence (opts : Options) : Congruence opts opts fun _ m _ => m.KeepsDepth where
  pure _ := of_state_eq fun _ _ ht => by cases ht; rfl
  bind := bind
  halt _ := halt _
  exhausted _ := of_state_eq fun _ _ ht => by cases ht
  read _ := of_state_eq fun _ _ ht => by cases ht; rfl
  bindName _ _ := modify fun _ => rfl
  signalReturn _ := modify fun _ => rfl
  newList _ := onStore _
  setItem _ _ _ _ := onStore _
  pushItem _ _ _ := onStore _
  effect _ _ := onStore _
  writeTo _ _ _ := onStore _
  trace _ := trace _ _
  located span := located span
  iterating id := iterating id
  inFrame frame := inFrame frame
  deeper h _ := by
    split
    · exact halt _
    · exact h
  policy := rfl

/-- Native functions are not counted. -/
theorem native (f : Native) (args : List Value) : (f.call args).KeepsDepth :=
  (congruence {}).native f args

end Run.KeepsDepth

end TagScript
