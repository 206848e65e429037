import TagScript.Proofs.Environments.Root
import TagScript.Proofs.Eval.Frame

set_option autoImplicit false

/-! # Locality of environments

Evaluation in an environment changes the frame of that environment and no other one, and a call
changes no environment at all: although a function called by value runs inside the live environment
of its caller, it cannot write there. -/

namespace TagScript

namespace Session

/-- A run in an environment changes the frame of that environment alone. -/
theorem perform_local {α : Type} {s t : Session} {number : Nat} {m : Run α}
    (h : (s.perform number m).state? = some t) :
    t.environments.size = s.environments.size ∧
      ∀ k, k ≠ number → t.environments[k]? = s.environments[k]? := by
  rw [perform_eq, Outcome.state?_mapState] at h
  obtain ⟨u, _, rfl⟩ := Option.map_eq_some_iff.1 h
  exact ⟨size_withState u, fun k hk => getElem?_withState_ne u hk⟩

/-- A run that keeps the frame changes no environment. -/
theorem perform_keeps {α : Type} {s t : Session} {number : Nat} {m : Run α} (hm : m.KeepsFrame)
    (h : (s.perform number m).state? = some t) : t.environments = s.environments := by
  rw [perform_eq, Outcome.state?_mapState] at h
  obtain ⟨u, hu, rfl⟩ := Option.map_eq_some_iff.1 h
  rw [withState_of_frame (hm _ _ hu)]

end Session

/-- Environments inside older ones are fit for evaluation. -/
theorem Linked.invariant_ordered :
    Invariant fun number s => s.Ordered ∧ number < s.environments.size where
  ordered h := h.1
  lt h := h.2
  withState t h := ⟨h.1.withState t, by rw [Session.size_withState]; exact h.2⟩
  lexical {number s} frame h := by
    refine ⟨h.1.enter ?_, ?_⟩
    · rintro p ⟨⟩
      exact h.2
    · rw [Session.size_enter]
      exact Nat.lt_succ_self _
  global {number s} frame h := by
    refine ⟨h.1.enter fun p hp => ?_, ?_⟩
    · exact Nat.lt_of_le_of_lt (Session.rootParent_le h.1 h.2 hp) h.2
    · rw [Session.size_enter]
      exact Nat.lt_succ_self _

open Linked in
/-- An evaluation changes the frame of its own environment alone, however it ends, and a call
    changes no environment. At every moment of a run of a program, whether or not it ends, the root
    is as it was loaded and the chain of every environment ends in it; and there a function called
    by its name is the last one of that name that the program defines, else the native one, else
    unknown. -/
theorem frame_locality (opts : Options) :
    (∀ fuel i number (s : Session), s.Ordered → number < s.environments.size →
      Linked.eval opts unwatched fuel i number s = s.evaluate opts fuel number i ∧
      ∀ t, (Linked.eval opts unwatched fuel i number s).state? = some t →
        t.environments.size = s.environments.size ∧
          ∀ k, k ≠ number → t.environments[k]? = s.environments[k]?) ∧
    (∀ fuel scope callee args number (s : Session), s.Ordered → number < s.environments.size →
      Linked.callValue opts (Linked.eval opts unwatched fuel) scope callee args number s
        = s.call opts fuel number scope callee args ∧
      ∀ t, (Linked.callValue opts (Linked.eval opts unwatched fuel) scope callee args number
          s).state? = some t → t.environments = s.environments) ∧
    (∀ fuel p arguments store depth alarm,
      let watch := alarmUnless (fun number s => s.InProgram p arguments number) alarm
      let s := { Session.start p arguments store with depth }
      Linked.run opts unwatched fuel p 1 s = s.perform 1 (p.run opts fuel arguments) ∧
      Linked.run opts watch fuel p 1 s = Linked.run opts unwatched fuel p 1 s ∧
      ∀ i number (t : Session), t.InProgram p arguments number →
        callNamed opts unwatched (Linked.eval opts unwatched fuel) i number t
          = callResolved opts (Linked.eval opts unwatched fuel) (p.resolve arguments i.value) i
              number t) := by
  have mirrors : ∀ fuel frames i, Mirrors _ frames (Linked.eval opts unwatched fuel i)
      (TagScript.eval opts fuel frames i) := Mirrors.eval invariant_ordered opts fun _ _ _ => rfl
  have heval : ∀ fuel i number (s : Session), s.Ordered → number < s.environments.size →
      Linked.eval opts unwatched fuel i number s = s.evaluate opts fuel number i :=
    fun fuel i number s hs hlt => mirrors fuel _ i number s ⟨hs, hlt⟩ rfl
  refine ⟨fun fuel i number s hs hlt => ⟨heval fuel i number s hs hlt, fun t ht => ?_⟩,
    fun fuel scope callee args number s hs hlt => ?_, fun fuel p arguments store depth alarm => ?_⟩
  · rw [heval fuel i number s hs hlt] at ht
    exact Session.perform_local ht
  · have hcall : Linked.callValue opts (Linked.eval opts unwatched fuel) scope callee args number s
        = s.call opts fuel number scope callee args :=
      Mirrors.callValue invariant_ordered (mirrors fuel) opts scope callee args number s ⟨hs, hlt⟩
        rfl
    refine ⟨hcall, fun t ht => ?_⟩
    rw [hcall] at ht
    exact Session.perform_keeps (.callValue _ _ _ _ _ _) ht
  · have hw : ∀ number s, s.InProgram p arguments number →
        alarmUnless (fun number s => s.InProgram p arguments number) alarm number s = .done () s :=
      fun number s hs => if_pos hs
    have hplain : Linked.run opts unwatched fuel p 1 _ = _ :=
      run_eq opts fuel p arguments store depth fun _ _ _ => rfl
    exact ⟨hplain, (run_eq opts fuel p arguments store depth hw).trans hplain.symm,
      fun i number t ht => callNamed_eq opts fuel (fun _ _ _ => rfl) i ht⟩

/-- A program whose function binds a variable of its caller and its own name. -/
def shadowing : Program where
  functions :=
    [⟨"f", [],
      [.mk .assign (some "x") [.mk .integer (some "2") [] [] [] none] [] [] none,
       .mk .assign (some "f") [.mk .integer (some "3") [] [] [] none] [] [] none],
      ⟨"", 1, 1, 1, 1⟩⟩]
  main := []

/-- A caller with a variable `x`, inside the root of the program. -/
def shadowedCaller : Session :=
  (Session.start shadowing [] {}).withState 1 ⟨({} : Frame).bind (some "x") (.int 1), {}, 0⟩

/-- The call of a function value. -/
def callByValue : Instr := .mk .call none [.mk .value (some "f") [] [] [] none] [] [] none

/-- The call leaves the root and the caller's variable as they were. -/
theorem frame_locality_shadowing :
    ∃ t, (Linked.eval {} Linked.unwatched 9 callByValue 1 shadowedCaller).state? = some t ∧
      t.environments[0]? = shadowedCaller.environments[0]? ∧
      (t.frame 1).bindings.get? (some "x") = some (.int 1) := by
  obtain ⟨t, ht, hx⟩ : ∃ t, (shadowedCaller.evaluate {} 9 1 callByValue).state? = some t ∧
      (t.frame 1).bindings.get? (some "x") = some (.int 1) := ⟨_, rfl, rfl⟩
  have hordered : shadowedCaller.Ordered :=
    (Session.InProgram.start shadowing [] {} 0).ordered.withState _
  obtain ⟨hsame, hlocal⟩ :=
    (frame_locality {}).1 9 callByValue 1 shadowedCaller hordered (by decide)
  rw [← hsame] at ht
  exact ⟨t, ht, (hlocal t ht).2 0 (by decide), hx⟩

end TagScript
