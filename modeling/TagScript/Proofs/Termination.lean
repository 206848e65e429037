import TagScript.Proofs.Rendering
import TagScript.Proofs.Soundness.Eval

set_option autoImplicit false

/-! # Termination

A program without loops on a condition comes to an end. The loops over ranges and lists go through
what was there when they started; a call goes one level deeper, and the depth of calls is bounded;
and what is called is always a function of the program. So the fuel that a run needs is bounded by
the number of instructions of the program, once for each level of calls. Printing follows lists into
lists, which may be cyclic, but never enters one that it is in. -/

namespace TagScript

/-! ## Main result -/

/-- Evaluation on its own, in runs of a program without loops on a condition. -/
def Comparison.ofWhileFree {p : Program} (hp : p.WhileFree) (arguments : List String)
    (opts : Options) : Comparison where
  program := p
  arguments := arguments
  opts := opts
  opts' := opts
  check := fun _ _ _ _ => True
  total := True
  debug_eq := rfl
  maxCallDepth_eq := rfl
  whileFree := fun _ => hp

/-- A program without loops on a condition comes to an end, in its main frame or halted, with any
    arguments, files, input and options; and no printing on the way is cut short. -/
theorem whileFree_terminates (p : Program) (hp : p.WhileFree) (opts : Options)
    (arguments : List String) (files : Files) (stdin : Input) :
    p.Terminates opts arguments (Program.start files stdin) ∧
    (∀ fuel, p.fuelBound opts ≤ fuel →
      (∃ t, p.run opts fuel arguments (Program.start files stdin) = .done () t) ∨
      ∃ h t, p.run opts fuel arguments (Program.start files stdin) = .halted h t) ∧
    ∀ (h : Heap) (v : Value) (nested : Bool) (room : Nat), h.lists.size < room →
      Value.formatWithin h room [] nested v = v.format h nested := by
  have hends : ∀ fuel, p.fuelBound opts ≤ fuel →
      (∃ t, p.run opts fuel arguments (Program.start files stdin) = .done () t) ∨
      ∃ h t, p.run opts fuel arguments (Program.start files stdin) = .halted h t := by
    intro fuel hfuel
    let c := Comparison.ofWhileFree hp arguments opts
    have hpass : c.Passes := ⟨fun _ _ _ _ => trivial, fun _ _ _ _ _ _ _ _ _ _ _ _ _ => trivial⟩
    have hrun := c.run_safe hpass fuel (fun _ => hfuel) _ (c.start_kept files stdin) rfl
    have hfin : (p.run opts fuel arguments (Program.start files stdin)).finished = true :=
      hrun.finished trivial
    cases ho : p.run opts fuel arguments (Program.start files stdin) with
    | done u t => exact .inl ⟨t, rfl⟩
    | halted h t => exact .inr ⟨h, t, rfl⟩
    | outOfFuel =>
        rw [ho] at hfin
        cases hfin
  refine ⟨?_, hends, fun h v nested room hroom => Value.format_of_room h v nested hroom⟩
  rcases hends _ (Nat.le_refl _) with ⟨t, ht⟩ | ⟨h, t, ht⟩
  · exact ⟨_, rfl, _, ht⟩
  · exact ⟨_, rfl, _, ht⟩

/-- A program whose only function calls itself. -/
def selfCaller : Program where
  functions := [⟨"f", [], [.mk .callNamed (some "f") [] [] [] none], default⟩]
  main := [.mk .callNamed (some "f") [] [] [] none]

theorem whileFree_terminates_selfCaller :
    selfCaller.WhileFree ∧ selfCaller.Terminates {} [] (Program.start {} {}) :=
  ⟨by decide, (whileFree_terminates selfCaller (by decide) {} [] {} {}).1⟩

end TagScript
