import TagScript.Proofs.Eval.Level
import TagScript.Proofs.Location.Tracks
import TagScript.Proofs.Safety.Eval

set_option autoImplicit false

/-! # Who raises a halt

When a run halts, one instruction has raised it: the innermost one under evaluation, whose own
performance halts without any evaluation inside it halting (`Raises.own`); the others under
evaluation have come to evaluate it, each inside the next (`Raises.inside`). Nothing here speaks of
the place that a fault carries. That evaluation puts the place of the culprit on the fault, and
leaves it there on the way out, is what `exists_raises` and `Raises.outcome` say together. -/

namespace TagScript

/-! ## Evaluations inside an evaluation -/

/-- The evaluator that gives no outcome where it would halt. -/
def Evaluator.quiet (ev : Evaluator) : Evaluator := fun outer i s =>
  match ev outer i s with
  | .halted _ _ => .outOfFuel
  | o => o

open Classical in
/-- The evaluator that halts in one evaluation, whatever it would do there. -/
noncomputable def Evaluator.haltingAt (ev : Evaluator) (e : Evaluation) (h : Halt) (t : State) :
    Evaluator := fun outer i s =>
  if Evaluation.mk outer i s = e then .halted h t else ev outer i s

namespace Evaluation

/-- The performance of an instruction after its trace line, its parts being evaluated by `ev`. -/
def perform (e : Evaluation) (opts : Options) (ev : Evaluator) (fuel : Nat) :
    Outcome State (Option Value) :=
  Eval.perform opts ev fuel e.outer e.instr (e.state.traced opts e.instr)

/-- The performance of the instruction comes to evaluate another: if that halted, in whatever way,
    so would the performance. -/
def Reaches (opts : Options) (fuel : Nat) (e e' : Evaluation) : Prop :=
  ∀ h t, ∃ u, e.perform opts ((eval opts fuel).haltingAt e' h t) fuel = .halted h u

end Evaluation

/-- The evaluation halts because the culprit does: the instruction itself, its performance halting
    with no halt inside it, or the culprit of an evaluation that the performance comes to. The halt
    is as the culprit raises it. -/
inductive Raises (opts : Options) :
    (fuel : Nat) → Evaluation → (culprit : Instr) → Halt → Prop where
  | own {fuel : Nat} {e : Evaluation} {h : Halt} {t : State} :
      e.state.Open → e.perform opts (eval opts fuel).quiet fuel = .halted h t →
      Raises opts (fuel + 1) e e.instr h
  | inside {fuel : Nat} {e e' : Evaluation} {culprit : Instr} {h : Halt} :
      e.state.Open → e.Reaches opts fuel e' → Raises opts fuel e' culprit h →
      Raises opts (fuel + 1) e culprit h

variable {opts : Options} {fuel : Nat} {e e' : Evaluation} {culprit : Instr} {h raw : Halt}
  {t : State}

/-! ## Matching evaluators -/

theorem Evaluator.matches_quiet (ev : Evaluator) : ev.Matches ev.quiet := by
  intro e r t h
  unfold Evaluation.outcome at h ⊢
  simp only [quiet, h]

theorem Evaluator.quiet_matches (ev : Evaluator) : ev.quiet.Matches ev := by
  intro e r t h
  simp only [Evaluation.outcome, quiet] at h ⊢
  split at h
  · cases h
  · exact h

theorem Evaluator.quiet_ne_halted (ev : Evaluator) (e : Evaluation) (h : Halt) (t : State) :
    e.outcome ev.quiet ≠ .halted h t := by
  intro heq
  simp only [Evaluation.outcome, quiet] at heq
  split at heq
  · cases heq
  · rename_i hne
    exact hne h t heq

theorem Evaluator.outcome_haltingAt (ev : Evaluator) (e : Evaluation) (h : Halt) (t : State) :
    e.outcome (ev.haltingAt e h t) = .halted h t := if_pos rfl

theorem Evaluator.haltingAt_of_ne {ev : Evaluator} {e : Evaluation} {outer : List Frame}
    {i : Instr} {s : State} (hne : Evaluation.mk outer i s ≠ e) (h : Halt) (t : State) :
    ev.haltingAt e h t outer i s = ev outer i s := if_neg hne

/-- To halt where it halts anyway changes nothing. -/
theorem Evaluator.haltingAt_self {ev : Evaluator} (heq : e.outcome ev = .halted h t) :
    ev.haltingAt e h t = ev := by
  funext outer i s
  by_cases he : Evaluation.mk outer i s = e
  · subst he
    exact (ev.outcome_haltingAt _ h t).trans heq.symm
  · exact haltingAt_of_ne he h t

theorem Evaluator.matches_haltingAt {ev : Evaluator} (heq : e.outcome ev = .halted h t) (k : Halt)
    (u : State) : ev.Matches (ev.haltingAt e k u) := by
  intro e' r s hdone
  by_cases he : e' = e
  · subst he
    rw [heq] at hdone
    cases hdone
  · exact (haltingAt_of_ne he k u).trans hdone

/-! ## Evaluations that halt -/

theorem outcome_of_perform (hopen : e.state.Open)
    (hp : e.perform opts (eval opts fuel) fuel = .halted raw t) :
    e.outcome (eval opts (fuel + 1)) = .halted (raw.locate e.instr.span) t := by
  have hp' : Eval.perform opts (eval opts fuel) fuel e.outer e.instr
      (e.state.traced opts e.instr) = .halted raw t := hp
  show Eval.step opts (eval opts fuel) fuel e.outer e.instr e.state = _
  rw [Eval.step_of_open opts _ fuel e.outer e.instr hopen, Run.located, hp']

theorem perform_of_outcome (ho : e.outcome (eval opts (fuel + 1)) = .halted h t) :
    e.state.Open ∧ ∃ raw, e.perform opts (eval opts fuel) fuel = .halted raw t := by
  have hopen : e.state.Open := by
    apply Classical.byContradiction
    intro hclosed
    have hidle := eval_of_not_open opts fuel e.outer e.instr hclosed
    exact absurd (hidle.symm.trans ho) (by simp)
  refine ⟨hopen, ?_⟩
  have hstep : Eval.step opts (eval opts fuel) fuel e.outer e.instr e.state = .halted h t := ho
  rw [Eval.step_of_open opts _ fuel e.outer e.instr hopen, Run.located] at hstep
  split at hstep
  · rename_i raw u hp
    cases hstep
    exact ⟨raw, hp⟩
  · rename_i hne
    exact absurd hstep (hne h t)

/-- An evaluation that halts has a culprit. -/
theorem exists_raises (ho : e.outcome (eval opts fuel) = .halted h t) :
    ∃ culprit raw, Raises opts fuel e culprit raw := by
  induction fuel generalizing e h t with
  | zero => cases ho
  | succ fuel ih =>
      obtain ⟨hopen, raw, hp⟩ := perform_of_outcome ho
      rcases (Tracks.perform opts e.outer fuel e.instr).halted hp with hself | ⟨e', ⟨u, hu⟩, hin⟩
      · exact ⟨e.instr, raw, .own hopen (hself.2 _ (Evaluator.matches_quiet _))⟩
      · obtain ⟨culprit, raw', hr⟩ := ih hu
        refine ⟨culprit, raw', .inside hopen (fun k v => ?_) hr⟩
        exact hin _ k v (Evaluator.matches_haltingAt hu k v) (Evaluator.outcome_haltingAt _ _ _ _)

/-- Without a halt inside it the performance halts by itself, with any evaluator that matches. -/
theorem perform_of_quiet {ev : Evaluator} (hp : e.perform opts ev.quiet fuel = .halted raw t) :
    raw.Raised ∧ e.perform opts ev fuel = .halted raw t := by
  rcases (Tracks.perform opts e.outer fuel e.instr).halted hp with hself | ⟨e', ⟨u, hu⟩, _⟩
  · exact ⟨hself.1, hself.2 ev ev.quiet_matches⟩
  · exact absurd hu (ev.quiet_ne_halted e' raw u)

namespace Raises

/-- The halt is as an operation raises it. -/
theorem raised (hr : Raises opts fuel e culprit raw) : raw.Raised := by
  induction hr with
  | own _ hp => exact (perform_of_quiet hp).1
  | inside _ _ _ ih => exact ih

/-- The evaluation halts as the culprit raises it, a fault being placed at the culprit, and no
    evaluation around the culprit changes the place. -/
theorem outcome {span : Span} (hr : Raises opts fuel e culprit raw)
    (hspan : culprit.span = some span) :
    ∃ t, e.outcome (eval opts fuel) = .halted (raw.locate (some span)) t := by
  induction hr with
  | own hopen hp =>
      rw [← hspan]
      exact ⟨_, outcome_of_perform hopen (perform_of_quiet hp).2⟩
  | @inside fuel e e' culprit raw hopen hreach hr ih =>
      obtain ⟨t, ht⟩ := ih hspan
      obtain ⟨u, hu⟩ := hreach (raw.locate (some span)) t
      rw [Evaluator.haltingAt_self ht] at hu
      refine ⟨u, (outcome_of_perform hopen hu).trans ?_⟩
      -- the halt has its place by now, if it is a fault
      have hplaced : (raw.locate (some span)).locate e.instr.span = raw.locate (some span) := by
        cases raw with
        | crash cause => rfl
        | fault cause place => cases place <;> rfl
      rw [hplaced]

end Raises

/-! ## Culprits are instructions of the program -/

namespace Watch

variable {w : Watch}

/-- An evaluation that a run of the program may come to. -/
structure Admits (w : Watch) (e : Evaluation) : Prop where
  instr : e.instr.parts ⊆ w.program.instructions
  outer : w.Frames e.outer e.state.size
  state : w.Kept 0 e.state

theorem Kept.traced {n : Nat} {s : State} (hs : w.Kept n s) (opts : Options) (i : Instr) :
    w.Kept n (s.traced opts i) := by
  unfold State.traced
  split
  · exact hs.of_heap hs.proper.heap (Nat.le_refl _)
  · exact hs

theorem passes_true (hcheck : w.check = fun _ _ _ _ => True) (n : Nat) : w.Passes n := by
  intro outer i s o _ _ _ _
  rw [hcheck]
  trivial

/-- A halt in an evaluation that a run does not come to is not noticed by evaluation. -/
theorem safe_haltingAt (hcheck : w.check = fun _ _ _ _ => True) (he : ¬ w.Admits e)
    (fuel : Nat) (h : Halt) (t : State) {n : Nat} {outer : List Frame} {i : Instr}
    (houter : w.Frames outer n) (hi : i.parts ⊆ w.program.instructions) :
    w.Safe n (eval w.opts fuel outer i) ((eval w.opts fuel).haltingAt e h t outer i) w.Result := by
  intro s hs
  refine ⟨(eval_safe (passes_true hcheck n) houter hi s hs).1, Evaluator.haltingAt_of_ne ?_ h t⟩
  rintro rfl
  exact he ⟨hi, houter.mono hs.size, hs.mono (Nat.zero_le n)⟩

theorem Admits.reaches (hcheck : w.check = fun _ _ _ _ => True) (he : w.Admits e)
    (hreach : e.Reaches w.opts fuel e') : w.Admits e' := by
  apply Classical.byContradiction
  intro hnot
  -- the performance would be the same whatever the halt, and yet halt in that way
  have hsame : ∀ h t, e.perform w.opts ((eval w.opts fuel).haltingAt e' h t) fuel
      = e.perform w.opts (eval w.opts fuel) fuel := by
    intro h t
    have hbodies : w.Bodies e.state.size (eval w.opts fuel)
        ((eval w.opts fuel).haltingAt e' h t) := by
      intro f hf inner k hk hinner
      refine block fun j hj => safe_haltingAt hcheck hnot fuel h t hinner fun part hpart => ?_
      exact (Program.body_sublist_instructions hf).subset
        ((Instr.parts_sublist_partsAll hj).subset hpart)
    have hchildren : ∀ j ∈ e.instr.children, w.Safe e.state.size (eval w.opts fuel e.outer j)
        ((eval w.opts fuel).haltingAt e' h t e.outer j) w.Result := fun j hj =>
      safe_haltingAt hcheck hnot fuel h t he.outer fun part hpart =>
        he.instr (Instr.parts_subset_of_mem hj hpart)
    have hshaped := w.shaped e.instr (he.instr e.instr.self_mem_parts)
    have hkept := he.state.atSize.traced w.opts e.instr
    exact (perform he.outer hbodies hshaped hchildren fuel _ hkept).2
  obtain ⟨u, hu⟩ := hreach (.crash .noDepth) e.state
  obtain ⟨v, hv⟩ := hreach (.crash .noRoom) e.state
  rw [hsame] at hu hv
  cases hu.symm.trans hv

theorem Admits.culprit_mem (hcheck : w.check = fun _ _ _ _ => True) (he : w.Admits e)
    (hr : Raises w.opts fuel e culprit raw) : culprit ∈ w.program.instructions := by
  induction hr with
  | own => exact he.instr (Instr.self_mem_parts _)
  | inside _ hreach _ ih => exact ih (he.reaches hcheck hreach)

end Watch

end TagScript
