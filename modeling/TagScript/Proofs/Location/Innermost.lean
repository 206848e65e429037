import TagScript.Proofs.Location.Elements
import TagScript.Proofs.Location.Raises
import TagScript.Proofs.Markup.Exact

set_option autoImplicit false

/-! # Faults are placed at the innermost instruction

A run of a program that was read and analysed from a document and ends in a fault ends in a fault
with a place: the span of the culprit, which is the innermost instruction under evaluation when the
fault was raised. Culprits are instructions of the program, and their spans are spans of elements of
the document. -/

namespace TagScript

open Markup (Node)

/-! ## Blocks and runs that halt -/

/-- A block that halts does so in one of its statements, the ones before it being done. -/
theorem Eval.block_eq_halted {ev : Instr → Run (Option Value)} {is : List Instr} {s t : State}
    {h : Halt} (hb : Eval.block ev is s = .halted h t) :
    ∃ before i rest u, is = before ++ i :: rest ∧ Eval.block ev before s = .done () u ∧
      ev i u = .halted h t := by
  induction is generalizing s with
  | nil => cases hb
  | cons i is ih =>
      unfold Eval.block at hb
      rw [Run.bind_apply] at hb
      split at hb
      · rename_i r u hi
        obtain ⟨before, j, rest, v, rfl, hbefore, hj⟩ := ih hb
        exact ⟨i :: before, j, rest, v, rfl, (Run.bind_done hi).trans hbefore, hj⟩
      · rename_i hi
        cases hb
        exact ⟨[], i, is, s, rfl, rfl, hi⟩
      · cases hb

namespace Program

/-- The run of the program halts because the culprit does: the main block is done up to one of its
    statements, and the evaluation of that statement halts because the culprit does. -/
def Raises (p : Program) (opts : Options) (fuel : Nat) (arguments : List String) (s : State)
    (culprit : Instr) (raw : Halt) : Prop :=
  ∃ before i rest u, p.main = before ++ i :: rest ∧
    ({ p with main := before } : Program).run opts fuel arguments s = .done () u ∧
    TagScript.Raises opts fuel ⟨[Frame.ofProgram p arguments], i, u⟩ culprit raw

variable {p : Program} {opts : Options} {fuel : Nat} {arguments : List String} {s t : State}
  {h raw : Halt} {culprit : Instr}

theorem run_apply (p : Program) (opts : Options) (fuel : Nat) (arguments : List String)
    (s : State) : ∃ s', Run.trace opts.debug (fun _ => .ok p.runLine) s = .done () s' ∧
      p.run opts fuel arguments s
        = Eval.block (eval opts fuel [Frame.ofProgram p arguments]) p.main s' := by
  obtain ⟨s', hs'⟩ : ∃ s', Run.trace opts.debug (fun _ => .ok p.runLine) s = .done () s' := by
    cases opts.debug <;> exact ⟨_, rfl⟩
  exact ⟨s', hs', Run.bind_done hs'⟩

/-- A run that halts has a culprit. -/
theorem exists_raises (hrun : p.run opts fuel arguments s = .halted h t) :
    ∃ culprit raw, p.Raises opts fuel arguments s culprit raw := by
  obtain ⟨s', hs', happly⟩ := p.run_apply opts fuel arguments s
  rw [happly] at hrun
  obtain ⟨before, i, rest, u, hmain, hbefore, hi⟩ := Eval.block_eq_halted hrun
  obtain ⟨culprit, raw, hr⟩ := TagScript.exists_raises
    (e := ⟨[Frame.ofProgram p arguments], i, u⟩) hi
  exact ⟨culprit, raw, before, i, rest, u, hmain, (Run.bind_done hs').trans hbefore, hr⟩

namespace Raises

/-- The halt is as an operation raises it. -/
theorem raised (hr : p.Raises opts fuel arguments s culprit raw) : raw.Raised := by
  obtain ⟨_, _, _, _, _, _, hr⟩ := hr
  exact hr.raised

/-- The run halts as the culprit raises it, a fault being placed at the culprit. -/
theorem outcome {span : Span} (hr : p.Raises opts fuel arguments s culprit raw)
    (hspan : culprit.span = some span) :
    ∃ t, p.run opts fuel arguments s = .halted (raw.locate (some span)) t := by
  obtain ⟨before, i, rest, u, hmain, hbefore, hr⟩ := hr
  obtain ⟨t, ht⟩ := hr.outcome hspan
  obtain ⟨s', hs', happly⟩ := p.run_apply opts fuel arguments s
  have hblock : Eval.block (eval opts fuel [Frame.ofProgram p arguments]) before s' = .done () u :=
    (Run.bind_done hs').symm.trans hbefore
  refine ⟨t, ?_⟩
  rw [happly, hmain, Eval.block_append, Run.bind_done hblock]
  exact Run.bind_halted ht

/-- The culprit is an instruction of the program, if all of these are shaped and the run starts in a
    proper state. -/
theorem culprit_mem_of_proper (hshaped : p.Shaped) (hs : s.Proper p arguments)
    (hr : p.Raises opts fuel arguments s culprit raw) : culprit ∈ p.instructions := by
  obtain ⟨before, i, rest, u, hmain, hbefore, hr⟩ := hr
  let w : Watch := ⟨p, arguments, opts, fun _ _ _ _ => True, raw, hshaped⟩
  have hsub : ∀ j ∈ p.main, j.parts ⊆ p.instructions := fun j hj =>
    ((Instr.parts_sublist_partsAll hj).trans p.main_sublist_instructions).subset
  have hsafe : w.Safe 0 (({ p with main := before } : Program).run opts fuel arguments)
      (({ p with main := before } : Program).alarmedRun opts w.check raw fuel arguments)
      fun _ _ => True := by
    refine Watch.Safe.bind (.trace _ _ fun _ _ => trivial) fun _ k hk _ =>
      Watch.block fun j hj => ?_
    exact Watch.eval_safe (Watch.passes_true rfl k) (w.frames_root k)
      (hsub j (hmain ▸ List.mem_append_left _ hj))
  have hends := (hsafe s ⟨hs, Nat.zero_le _⟩).1
  rw [hbefore] at hends
  cases hends with
  | done hkept _ =>
      refine Watch.Admits.culprit_mem (w := w) rfl ⟨hsub i ?_, w.frames_root _, ?_⟩ hr
      · rw [hmain]
        exact List.mem_append_right _ List.mem_cons_self
      · exact hkept.mono (Nat.zero_le _)

/-- The culprit is an instruction of the program, if all of these are shaped. -/
theorem culprit_mem {files : Files} {stdin : Input} (hshaped : p.Shaped)
    (hr : p.Raises opts fuel arguments (Program.start files stdin) culprit raw) :
    culprit ∈ p.instructions :=
  hr.culprit_mem_of_proper hshaped ⟨Frame.Each.empty, Heap.Each.empty⟩

end Raises

end Program

/-! ## Documents -/

/-- A run of an analysed document that ends in a fault has a culprit, and whatever the culprit, the
    fault is the one it raised, the culprit is an instruction of the program, and the fault is
    placed at the culprit, which is where an element of the document stands. -/
theorem fault_at_innermost {file text : String} {root : Node} {p : Program}
    (hparse : Markup.parse .document file text = .ok root)
    (hp : (Analysis.program root).outcome = .ok p) {opts : Options} {fuel : Nat}
    {arguments : List String} {files : Files} {stdin : Input} {cause : Fault}
    {place : Option Span} {t : State}
    (hrun : p.run opts fuel arguments (Program.start files stdin)
      = .halted (.fault cause place) t) :
    (∃ culprit raw, p.Raises opts fuel arguments (Program.start files stdin) culprit raw) ∧
    ∀ culprit raw, p.Raises opts fuel arguments (Program.start files stdin) culprit raw →
      raw = .fault cause none ∧ culprit ∈ p.instructions ∧ place = culprit.span ∧
      ∃ n ∈ root.postorder, place = some n.span ∧
        Markup.Stands file (Markup.Mode.document.prepare text.toList) n := by
  refine ⟨Program.exists_raises hrun, fun culprit raw hr => ?_⟩
  have hmem := hr.culprit_mem (Analysis.program_shaped hp)
  obtain ⟨n, hn, hspan⟩ := Analysis.program_spans hp culprit hmem
  obtain ⟨u, hu⟩ := hr.outcome hspan
  have hsame := Outcome.halted.inj (hrun.symm.trans hu)
  have hderives := Markup.parse_eq_ok.1 hparse
  cases raw with
  | crash c => cases hsame.1
  | fault c q =>
      obtain rfl : q = none := hr.raised.place_eq_none
      obtain ⟨rfl, rfl⟩ := Halt.fault.inj hsame.1
      exact ⟨rfl, hmem, hspan.symm, n, hn, rfl, hderives.stands n hn⟩

/-- A negation of a variable that nobody has bound. -/
def strayDocument : String := "<program><main><not><value variable='x'/></not></main></program>"

/-- The tree of the document. -/
def strayTree : Node :=
  .mk "program" []
    [.mk "main" []
      [.mk "not" []
        [.mk "value" [("variable", "x")] [] ⟨⟨"f", 1, 21, 1, 42⟩, true⟩]
        ⟨⟨"f", 1, 16, 1, 48⟩, false⟩]
      ⟨⟨"f", 1, 10, 1, 55⟩, false⟩]
    ⟨⟨"f", 1, 1, 1, 65⟩, false⟩

/-- The fault is placed at the element that reads the variable, not at the negation around it. -/
theorem fault_at_innermost_stray :
    Markup.parse .document "f" strayDocument = .ok strayTree ∧
    ∃ p t culprit raw, (Analysis.program strayTree).outcome = .ok p ∧
      p.run {} 9 [] (Program.start {} {})
        = .halted (.fault (.unknownVariable (some "x")) (some ⟨"f", 1, 21, 1, 42⟩)) t ∧
      p.Raises {} 9 [] (Program.start {} {}) culprit raw ∧
      culprit.span = some ⟨"f", 1, 21, 1, 42⟩ := by
  have hparse : Markup.parse .document "f" strayDocument = .ok strayTree := by rfl
  obtain ⟨p, hp, t, hrun⟩ : ∃ p, (Analysis.program strayTree).outcome = .ok p ∧
      ∃ t, p.run {} 9 [] (Program.start {} {})
        = .halted (.fault (.unknownVariable (some "x")) (some ⟨"f", 1, 21, 1, 42⟩)) t :=
    ⟨_, rfl, Program.start {} {}, rfl⟩
  obtain ⟨⟨culprit, raw, hr⟩, hall⟩ := fault_at_innermost hparse hp hrun
  obtain ⟨_, _, hspan, _⟩ := hall culprit raw hr
  exact ⟨hparse, p, t, culprit, raw, hp, hrun, hr, hspan.symm⟩

end TagScript
