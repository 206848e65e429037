import TagScript.Proofs.Safety.Eval

set_option autoImplicit false

/-! # Analysed programs are never stuck

What the analysis of markup gives is shaped at any depth, and a run of it evaluates nothing else:
functions carry no other instructions than those of the program. So a run of an analysed program
never comes upon an instruction that it cannot take apart. -/

namespace TagScript

open Markup (Node)

/-- The run has come upon an instruction that it cannot take apart: one of an unknown kind, one
    without the text that it reads, or one with too few operands or too many. -/
def Halt.Stuck : Halt → Prop
  | .fault (.unknownInstruction _) _ => True
  | .fault (.operation _ .noOperand) _ => True
  | .crash .noOperand => True
  | .crash (.operandCount _ _) => True
  | .crash (.noText _) => True
  | _ => False

theorem Halt.Ordinary.not_stuck {h : Halt} (hh : h.Ordinary) : ¬ h.Stuck := by
  intro hs
  unfold Halt.Stuck at hs
  split at hs
  · exact hh
  · exact hh
  · exact hh
  · exact hh
  · exact hh
  · exact hs

/-- Every instruction that the analysis of an element or of a document gives is shaped, at any
    depth; every instruction that a run of an analysed program comes to evaluate is shaped, whether
    or not the run ends; and no such run halts because it is stuck. -/
theorem analysed_never_stuck :
    (∀ (n : Node) (i : Instr), (Analysis.instr n).outcome = .ok i → ∀ j ∈ i.parts, j.Shaped) ∧
    (∀ (root : Node) (p : Program), (Analysis.program root).outcome = .ok p →
      p.Shaped ∧
      ∀ opts arguments files stdin fuel,
        (∀ alarm,
          p.alarmedRun opts (fun _ i _ _ => i.Shaped) alarm fuel arguments
              (Program.start files stdin)
            = p.run opts fuel arguments (Program.start files stdin)) ∧
        ∀ h t, p.run opts fuel arguments (Program.start files stdin) = .halted h t →
          ¬ h.Stuck) := by
  refine ⟨fun n i => Analysis.instr_shaped, fun root p hp => ?_⟩
  have hshaped := Analysis.program_shaped hp
  refine ⟨hshaped, fun opts arguments files stdin fuel => ?_⟩
  have hsafe : ∀ alarm, _ := fun alarm =>
    let w : Watch := ⟨p, arguments, opts, fun _ i _ _ => i.Shaped, alarm, hshaped⟩
    w.run_safe (fun _ i _ _ hi _ _ _ => hshaped i (hi i.self_mem_parts)) fuel
      (Program.start files stdin) (w.kept_start files stdin)
  refine ⟨fun alarm => (hsafe alarm).2, fun h t hrun => ?_⟩
  have hends := (hsafe h).1
  rw [hrun] at hends
  cases hends with
  | halted _ hh => exact hh.not_stuck

/-- A document with a function that divides by what it is given, called by its name. -/
def dividingDocument : Node :=
  let element (tag : String) (attributes : List (String × String)) (children : List Node) : Node :=
    .mk tag attributes children ⟨⟨"", 1, 1, 1, 1⟩, false⟩
  element "program" []
    [element "function" [("name", "invert")]
      [element "arguments" [] [element "argument" [("name", "x")] []],
       element "body" []
        [element "return" []
          [element "divide" []
            [element "integer" [("value", "1")] [], element "value" [("variable", "x")] []]]]],
     element "main" []
      [element "call" [("function", "invert")]
        [element "arguments" [] [element "string" [("value", "0")] []]]]]

/-- The document is analysed, and its run halts, but not because it is stuck. -/
theorem analysed_never_stuck_dividing :
    ∃ p h t, (Analysis.program dividingDocument).outcome = .ok p ∧ p.Shaped ∧
      p.run {} 9 [] (Program.start {} {}) = .halted h t ∧ ¬ h.Stuck := by
  obtain ⟨p, hp, h, t, hrun⟩ : ∃ p, (Analysis.program dividingDocument).outcome = .ok p ∧
      ∃ h t, p.run {} 9 [] (Program.start {} {}) = .halted h t := ⟨_, rfl, _, _, rfl⟩
  obtain ⟨hshaped, hruns⟩ := analysed_never_stuck.2 dividingDocument p hp
  exact ⟨p, h, t, hp, hshaped, hrun, (hruns {} [] {} {} 9).2 h t hrun⟩

end TagScript
