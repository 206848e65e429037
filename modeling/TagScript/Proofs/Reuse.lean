import TagScript.Proofs.Eval.Depth
import TagScript.Proofs.Setting

set_option autoImplicit false

/-! # A session that has been used

What operations leave behind in a session is lists, files, output and environments. A further run of
a program makes its own root, and cannot come upon any of the older lists; the depth of calls is
zero again after every operation, whatever it ended with. So the run does what it does in a fresh
session with the same files and the same input, seen in the setting of what was there before. -/

namespace TagScript

namespace Session

/-- The sessions that operations lead to. Every operation came to an end, with a result or with a
    halt at any depth of calls; in between the environments and the store may be changed. -/
inductive Used (opts : Options) : Session → Prop where
  | new (environments : Array Environment) (store : Store) : Used opts { environments, store }
  | changed {s : Session} (environments : Array Environment) (store : Store) :
      Used opts s → Used opts { s with environments, store }
  | run {s t : Session} (fuel : Nat) (p : Program) (arguments : List String) :
      Used opts s → (s.run opts fuel p arguments).state? = some t → Used opts t
  | evaluate {s t : Session} (fuel number : Nat) (i : Instr) :
      Used opts s → (s.evaluate opts fuel number i).state? = some t → Used opts t
  | call {s t : Session} (fuel number : Nat) (scope : Scope) (callee : Value)
      (args : List Value) :
      Used opts s → (s.call opts fuel number scope callee args).state? = some t → Used opts t

/-! ## The depth of calls -/

theorem depth_of_perform {α : Type} {s t : Session} {number : Nat} {m : Run α} (hm : m.KeepsDepth)
    (h : (s.perform number m).state? = some t) : t.depth = s.depth := by
  unfold perform at h
  rw [Outcome.state?_mapState] at h
  obtain ⟨u, hu, rfl⟩ := Option.map_eq_some_iff.1 h
  exact hm _ u hu

theorem depth_of_run {opts : Options} {fuel : Nat} {s t : Session} {p : Program}
    {arguments : List String} (h : (s.run opts fuel p arguments).state? = some t) :
    t.depth = s.depth := by
  have c := Run.KeepsDepth.congruence opts
  have hkeeps := c.run (Nat.le_refl fuel) p arguments ⟨{}, s.store, s.depth⟩
  unfold run at h
  split at h <;> cases h
  · exact hkeeps _ (by rw [‹p.run opts fuel arguments _ = _›]; rfl)
  · exact hkeeps _ (by rw [‹p.run opts fuel arguments _ = _›]; rfl)

/-- No call is in progress between operations. -/
theorem Used.depth_eq {opts : Options} {s : Session} (h : s.Used opts) : s.depth = 0 := by
  have c := Run.KeepsDepth.congruence opts
  induction h with
  | new environments store => rfl
  | changed environments store _ ih => exact ih
  | run fuel p arguments _ hrun ih => exact (depth_of_run hrun).trans ih
  | evaluate fuel number i _ heval ih =>
      exact (depth_of_perform (c.eval (Nat.le_refl fuel) _ i) heval).trans ih
  | call fuel number scope callee args _ hcall ih =>
      exact (depth_of_perform (c.evalCall (Nat.le_refl fuel) _ scope callee args) hcall).trans ih

/-! ## A further run -/

/-- A fresh session with the same files and the same input. -/
def fresh (s : Session) : Session :=
  { store := { files := s.store.files, stdin := s.store.stdin } }

@[simp] theorem depth_fresh (s : Session) : s.fresh.depth = 0 := rfl

@[simp] theorem environments_fresh (s : Session) : s.fresh.environments = #[] := rfl

/-- The setting of what there is in a session. -/
def setting (s : Session) : Setting where
  lists := s.store.heap.lists
  stdout := s.store.stdout
  stderr := s.store.stderr

/-- The environment in the setting, the environments of the session coming before it. -/
def shift (s : Session) (e : Environment) : Environment where
  parent := match e.parent with
    | .none => .none
    | .environment number => .environment (s.environments.size + number)
    | .sealed root => .sealed (s.setting.frame root)
  frame := s.setting.frame e.frame

/-- What a session has come to when it is a fresh one that has come to `t`. -/
def extend (s t : Session) : Session where
  environments := s.environments ++ t.environments.map s.shift
  store := s.setting.view.store t.store
  depth := t.depth

/-- The outcome of a run of a program in a session when it is this one in a fresh session. -/
def extended (s : Session) : Outcome Session Nat → Outcome Session Nat
  | .done number t => .done (s.environments.size + number) (s.extend t)
  | .halted h t => .halted h (s.extend t)
  | .outOfFuel => .outOfFuel

/-- The state in which a program starts is that of a fresh session, in the setting. -/
theorem setting_state_fresh (s : Session) :
    s.setting.simulation.state ⟨{}, s.fresh.store, 0⟩ = ⟨{}, s.store, 0⟩ := by
  simp [Simulation.state, Simulation.frame, Frame.map, Bindings.map, View.store,
    Setting.simulation, Setting.view, Setting.heap, setting, fresh]

/-- No frames come between those of the run and its root. -/
theorem setting_run (s : Session) (opts : Options) (fuel : Nat) (p : Program)
    (arguments : List String) :
    s.setting.simulation.Does (p.run opts fuel arguments) (p.run opts fuel arguments) :=
  Simulation.run (Setting.not_binds_of_between_nil rfl) (fun _ _ => rfl) fuel rfl
    (s.setting.frame_ofProgram p arguments).symm (List.map_id _).symm

end Session

/-- A session that has been used, in any way and with any results and faults, is as good as a fresh
    one. No call is in progress after any of its operations. A further run of a program does what it
    does in a fresh session with the same files and the same input: it comes to an end alike, with
    the same result or fault, the same files, the same output after what was written before, and the
    same final environment, the lists it refers to being numbered after those that were there, which
    stay as they were. -/
theorem used_session_runs_as_fresh (opts : Options) (s : Session) (h : s.Used opts) :
    s.depth = 0 ∧ ∀ fuel p arguments,
      s.run opts fuel p arguments = s.extended (s.fresh.run opts fuel p arguments) := by
  refine ⟨h.depth_eq, fun fuel p arguments => ?_⟩
  have hstart : s.setting.simulation.FreeState ⟨{}, s.fresh.store, 0⟩ := ⟨.empty, .empty⟩
  obtain ⟨heq, -⟩ := s.setting_run opts fuel p arguments _ hstart
  rw [s.setting_state_fresh] at heq
  unfold Session.run
  rw [h.depth_eq, heq, Session.depth_fresh]
  cases p.run opts fuel arguments ⟨{}, s.fresh.store, 0⟩ with
  | done _ t =>
      refine congrArg (Outcome.done s.environments.size) ?_
      simp [Session.extend, Session.shift, Simulation.state]
  | halted k t =>
      refine congrArg (Outcome.halted k) ?_
      simp [Session.extend, Simulation.state]
  | outOfFuel => rfl

/-- A program that makes a list and then calls a function, which halts. -/
def haltsInCall : Program where
  functions := [⟨"f", [], [.mk .value (some "missing") [] [] [] none], ⟨"", 1, 1, 1, 1⟩⟩]
  main := [.mk .assign (some "xs") [.mk .array none [] [] [] none] [] [] none,
    .mk .callNamed (some "f") [] [] [] none]

/-- A program that makes a list. -/
def makesList : Program where
  functions := []
  main := [.mk .assign (some "xs") [.mk .array none [] [] [] none] [] [] none]

/-- After a run that halted with a call in progress, having made a list, the depth is zero and the
    list of a further run is the second one. -/
theorem used_session_runs_as_fresh_after_halt :
    ∃ s t, (({} : Session).run {} 9 haltsInCall []).state? = some s ∧ s.depth = 0 ∧
      s.run {} 9 makesList [] = s.extended (s.fresh.run {} 9 makesList []) ∧
      s.run {} 9 makesList [] = .done 0 t ∧ t.lookup 0 "xs" = .list 1 := by
  refine ⟨_, _, rfl, ?_, ?_, rfl, rfl⟩
  · exact (used_session_runs_as_fresh {} _ (.run 9 haltsInCall [] (.new #[] {}) rfl)).1
  · exact (used_session_runs_as_fresh {} _ (.run 9 haltsInCall [] (.new #[] {}) rfl)).2 9 makesList
      []

end TagScript
