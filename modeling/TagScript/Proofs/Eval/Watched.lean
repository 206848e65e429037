import TagScript.Session

set_option autoImplicit false

/-! # Watched evaluation

A statement about everything that happens inside a run is a statement about each instruction that
the run comes to evaluate: the state in which its evaluation starts, and its outcome. Watched
evaluation puts a check on each of these and gives no outcome as soon as one fails. That the watched
run has the same outcome as the run says that every evaluation inside it passes the check. -/

namespace TagScript

/-- A condition on the evaluation of an instruction: the frames outside the innermost one, the
    instruction, the state in which it starts, and its outcome. -/
abbrev Check := List Frame → Instr → State → Outcome State (Option Value) → Prop

open Classical in
/-- Evaluation that gives no outcome once the evaluation of an instruction fails the check. -/
noncomputable def watched (opts : Options) (check : Check) : (fuel : Nat) → Evaluator
  | 0 => fun _ _ => Run.exhausted
  | fuel + 1 => fun outer i s =>
    let o := Eval.step opts (watched opts check fuel) fuel outer i s
    if check outer i s o then o else .outOfFuel

theorem watched_succ (opts : Options) (check : Check) (fuel : Nat) (outer : List Frame) (i : Instr)
    (s : State) {o : Outcome State (Option Value)}
    (ho : Eval.step opts (watched opts check fuel) fuel outer i s = o) (h : check outer i s o) :
    watched opts check (fuel + 1) outer i s = o := by
  subst ho
  simp only [watched, if_pos h]

/-- A check that passes always changes nothing. -/
theorem watched_true (opts : Options) (fuel : Nat) :
    watched opts (fun _ _ _ _ => True) fuel = eval opts fuel := by
  induction fuel with
  | zero => rfl
  | succ fuel ih =>
      funext outer i s
      simp only [watched, if_pos trivial, ih]
      rfl

/-- The run of a program by watched evaluation. -/
noncomputable def Program.watchedRun (p : Program) (opts : Options) (check : Check) (fuel : Nat)
    (arguments : List String) : Run Unit := do
  Run.trace opts.debug fun _ => .ok p.runLine
  Eval.block (watched opts check fuel [Frame.ofProgram p arguments]) p.main

theorem Program.watchedRun_true (opts : Options) (fuel : Nat) (p : Program)
    (arguments : List String) :
    p.watchedRun opts (fun _ _ _ _ => True) fuel arguments = p.run opts fuel arguments := by
  unfold Program.watchedRun
  rw [watched_true]
  rfl

/-! ## Alarms

A run that does not come to an end has no outcome to compare. Evaluation with an alarm halts as soon
as a check fails. That the run with an alarm has the same outcome as the run, for any fuel and
whatever the alarm, says that every evaluation inside the run passes the check, whether or not the
run comes to an end. -/

open Classical in
/-- Evaluation that halts with the alarm once the evaluation of an instruction fails the check. -/
noncomputable def alarmed (opts : Options) (check : Check) (alarm : Halt) : (fuel : Nat) → Evaluator
  | 0 => fun _ _ => Run.exhausted
  | fuel + 1 => fun outer i s =>
    let o := Eval.step opts (alarmed opts check alarm fuel) fuel outer i s
    if check outer i s o then o else .halted alarm s

theorem alarmed_succ (opts : Options) (check : Check) (alarm : Halt) (fuel : Nat)
    (outer : List Frame) (i : Instr) (s : State) {o : Outcome State (Option Value)}
    (ho : Eval.step opts (alarmed opts check alarm fuel) fuel outer i s = o)
    (h : check outer i s o) : alarmed opts check alarm (fuel + 1) outer i s = o := by
  subst ho
  simp only [alarmed, if_pos h]

/-- The run of a program by evaluation with an alarm. -/
noncomputable def Program.alarmedRun (p : Program) (opts : Options) (check : Check) (alarm : Halt)
    (fuel : Nat) (arguments : List String) : Run Unit := do
  Run.trace opts.debug fun _ => .ok p.runLine
  Eval.block (alarmed opts check alarm fuel [Frame.ofProgram p arguments]) p.main

end TagScript
