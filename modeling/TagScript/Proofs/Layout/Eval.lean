import TagScript.Proofs.Eval.Simulates
import TagScript.Proofs.Layout.Value

set_option autoImplicit false

/-! # Runs do not depend on places

Evaluation copies the place of an instruction to the fault that it raises, and writes it on trace
lines; nothing else reads a place. So forgetting places is a simulation (`bareSimulation`): without
tracing, the run of a program whose places have been forgotten ends as the run of the program does,
with the places of its values and of its fault forgotten (`Program.run_bare`). -/

namespace TagScript

/-- The outcome with its result changed and all places in it forgotten. -/
def Outcome.bare {α β : Type} (g : α → β) : Outcome State α → Outcome State β
  | .done a s => .done (g a) s.bare
  | .halted h s => .halted h.bare s.bare
  | .outOfFuel => .outOfFuel

/-- From every state without its places, the second run ends as the first does from that state, up
    to places. -/
def Run.Erases {α β : Type} (g : α → β) (m : Run α) (m' : Run β) : Prop :=
  ∀ s : State, m' s.bare = (m s).bare g

/-! ## Forgetting places -/

theorem Halt.bare_of_raised {h : Halt} (hh : h.Raised) : h.bare = h := by
  cases h with
  | crash cause => rfl
  | fault cause place =>
      obtain rfl : place = none := hh.place_eq_none
      rfl

/-- A fault that has a place keeps it, and the place of another is forgotten with the place at which
    it is put. -/
theorem Halt.locate_bare (h : Halt) (span : Option Span) :
    (h.locate span).bare = h.bare.locate (Span.forget span) := by
  match h with
  | .fault cause none => rfl
  | .fault cause (some place) => rfl
  | .crash cause => rfl

/-- Runs seen without their places. All names are read. -/
def bareSimulation : Simulation where
  toView := bareView
  instr := Instr.bare
  place := Span.forget
  halt := Halt.bare
  hidden _ := False
  value_closure _ := rfl
  kind_instr := Instr.kind_bare
  value_instr := Instr.value_bare
  operands_instr := Instr.operands_bare
  body_instr := Instr.body_bare
  orelse_instr := Instr.orelse_bare
  span_instr := Instr.span_bare
  halt_raised _ := Halt.bare_of_raised
  halt_locate := Halt.locate_bare

theorem bareSimulation_state (s : State) : bareSimulation.state s = s.bare :=
  congrArg (fun store => State.mk s.frame.bare store s.depth) s.store.bareView_store

open Run (Erases)

theorem Run.Erases.of_simulates {α β : Type} {Q : α → Prop} {g : α → β} {m : Run α} {m' : Run β}
    (h : bareSimulation.Simulates Q g m m') : Erases g m m' := by
  intro s
  have heq := (h s (Simulation.freeState_of_open (fun _ => not_false) s)).1
  rw [bareSimulation_state] at heq
  rw [heq]
  cases m s with
  | done a t => exact congrArg (Outcome.done (g a)) (bareSimulation_state t)
  | halted k t => exact congrArg (Outcome.halted k.bare) (bareSimulation_state t)
  | outOfFuel => rfl

/-! ## Evaluation -/

variable {opts : Options} (hdebug : opts.debug = false)
include hdebug

/-- No instruction is written on a trace line. -/
theorem bareSimulation_debug (h : opts.debug = true) (i : Instr) : bareSimulation.instr i = i := by
  cases hdebug.symm.trans h

/-- The run of a program without its places ends as the run of the program does, up to places. -/
theorem Program.run_bare (fuel : Nat) (p : Program) (arguments : List String) :
    Erases id (p.run opts fuel arguments) (p.bare.run opts fuel arguments) :=
  .of_simulates (Simulation.run (fun _ => not_false) (bareSimulation_debug hdebug) fuel
    (List.length_map _) (Frame.ofProgram_bare p arguments) rfl)

end TagScript
