import TagScript.Proofs.Soundness.Eval

set_option autoImplicit false

/-! # When loops are left

A loop over a range or a list is left as soon as its frame has returned, or else goes through its
other rounds, in which it can do no more than bind its variable. No one sees the difference: what is
bound then is not read any more in that frame, binding it cannot fail, and the frame of a call is
dropped when the call ends. -/

namespace TagScript

/-- The options with loops left at once, or not, in a frame that has returned. -/
def Options.leaving (opts : Options) (atOnce : Bool) : Options :=
  { opts with shortCircuitLoops := atOnce }

/-- What the evaluation of a call is done with, it is done with under the other options too. -/
def Check.sameCall (other : Options) : Check := fun outer i s o =>
  (i.kind = .call ∨ i.kind = .callNamed) →
    ∀ r t, o = .done r t → ∃ fuel, eval other fuel outer i s = .done r t

namespace Comparison

/-- Evaluation that leaves loops at once, or not, beside evaluation that does the opposite. -/
def ofPolicy (p : Program) (arguments : List String) (opts : Options) (atOnce : Bool) :
    Comparison where
  program := p
  arguments := arguments
  opts := opts.leaving atOnce
  opts' := opts.leaving !atOnce
  check := fun _ _ _ _ => True
  total := False
  debug_eq := rfl
  maxCallDepth_eq := rfl
  whileFree := False.elim

/-- Evaluation beside itself, watched for calls that the opposite policy does in the same way. -/
def ofCalls (p : Program) (arguments : List String) (opts : Options) (atOnce : Bool) :
    Comparison where
  program := p
  arguments := arguments
  opts := opts.leaving atOnce
  opts' := opts.leaving atOnce
  check := Check.sameCall (opts.leaving !atOnce)
  total := False
  debug_eq := rfl
  maxCallDepth_eq := rfl
  whileFree := False.elim

variable (p : Program) (arguments : List String) (opts : Options) (atOnce : Bool)

theorem ofPolicy_passes : (ofPolicy p arguments opts atOnce).Passes :=
  ⟨fun _ _ _ _ => trivial, fun _ _ _ _ _ _ _ _ _ _ _ _ _ => trivial⟩

variable {p arguments opts atOnce} {d n : Nat} {outer : List Frame}

/-- The policies are alike from every good state. -/
theorem evals_of_policy (fuel : Nat) (i : Instr)
    (houter : (ofPolicy p arguments opts atOnce).Frames outer n) :
    (ofPolicy p arguments opts atOnce).Evals (fun _ => True) d n
      (eval (opts.leaving atOnce) fuel outer i) (eval (opts.leaving !atOnce) fuel outer i) := by
  rw [← watched_true (opts.leaving !atOnce) fuel]
  exact eval_safe (ofPolicy_passes p arguments opts atOnce) houter (fun _ _ _ _ => trivial)
    False.elim

/-- A call gives the same from a good state under the opposite policy: the frame is open after it,
    so that the states are the same. -/
theorem call_of_policy {fuel : Nat} {i : Instr} {s t : State} {r : Option Value}
    (hkind : i.kind = .call ∨ i.kind = .callNamed)
    (houter : (ofPolicy p arguments opts atOnce).Frames outer n)
    (hs : (ofPolicy p arguments opts atOnce).Kept d n s) (ho : s.Open)
    (h : eval (opts.leaving atOnce) (fuel + 1) outer i s = .done r t) :
    eval (opts.leaving !atOnce) (fuel + 1) outer i s = .done r t := by
  -- a call works in frames of its own
  have hmay : i.kind.mayReturn = false := by
    rcases hkind with hk | hk <;> rw [hk] <;> rfl
  have hopen : t.Open :=
    Eval.perform_keepsOpen (eval_openOnValue _ fuel) _ fuel outer hmay _ r t
      (ho.traced _ i) (perform_of_eval ho h)
  have hmatch := evals_of_policy (fuel + 1) i houter s hs ho
  rw [h] at hmatch
  obtain ⟨t', ht', hnear⟩ := (hmatch.like rfl).of_done
  rw [ht', hnear.same (.inl hopen)]

variable (p arguments opts atOnce)

theorem ofCalls_passes : (ofCalls p arguments opts atOnce).Passes where
  idle outer i s hs _ r t h := by
    cases h
    exact ⟨1, eval_of_not_open _ 0 outer i hs⟩
  evals names d n fuel outer i s o houter hs ho hfin hmatch hkind r t h := by
    rw [← hmatch.eq_of_policy rfl hfin] at h
    exact ⟨fuel + 1, call_of_policy hkind houter ⟨hs.sound, hs.depth, hs.size⟩ ho h⟩

end Comparison

/-! ## Main result -/

/-- A run that comes to an end does so under the opposite policy, in the same way. -/
theorem Program.Ends.of_policy {p : Program} {opts : Options} {atOnce : Bool}
    {arguments : List String} {files : Files} {stdin : Input} {o : Outcome State Unit}
    (h : p.Ends (opts.leaving atOnce) arguments (start files stdin) o) :
    ∃ o', p.Ends (opts.leaving !atOnce) arguments (start files stdin) o' ∧
      o.Like (fun s t => s.RebindsOnly p.MainLoops t ∧ (s.Open → t = s)) o' := by
  obtain ⟨hfin, fuel, rfl⟩ := h
  let c := Comparison.ofPolicy p arguments opts atOnce
  have hmatch := c.run_safe (Comparison.ofPolicy_passes p arguments opts atOnce) fuel False.elim _
    (c.start_kept files stdin) rfl
  have hlike := hmatch.like hfin
  rw [show c.program.watchedRun c.opts' c.check fuel c.arguments
    = p.run (opts.leaving !atOnce) fuel arguments from watchedRun_true _ fuel p arguments] at hlike
  refine ⟨_, ⟨?_, fuel, rfl⟩, hlike.mono fun s t hnear => ?_⟩
  · rw [← hlike.finished_eq]
    exact hfin
  · exact ⟨hnear.toRebindsOnly, fun hs => hnear.same (.inl hs)⟩

/-- Every call that a run is done with is done in the same way under the opposite policy. -/
theorem Program.run_sameCall {p : Program} {opts : Options} {atOnce : Bool}
    {arguments : List String} {files : Files} {stdin : Input} {fuel : Nat}
    (h : (p.run (opts.leaving atOnce) fuel arguments (start files stdin)).finished = true) :
    p.watchedRun (opts.leaving atOnce) (Check.sameCall (opts.leaving !atOnce)) fuel arguments
        (start files stdin)
      = p.run (opts.leaving atOnce) fuel arguments (start files stdin) := by
  let c := Comparison.ofCalls p arguments opts atOnce
  have hmatch := c.run_safe (Comparison.ofCalls_passes p arguments opts atOnce) fuel False.elim _
    (c.start_kept files stdin) rfl
  exact (hmatch.eq_of_policy rfl h).symm

/-- When loops are left makes no difference. Under one policy a program comes to an end exactly if
    it does under the other. It then ends in the same way: with the same store, so the same output,
    files and lists, and the same fault if it halts; and the main frames have the same value to
    return and the same bindings, except that, once a value has been returned, the variables of
    loops in the main block may differ. Every call that either run is done with is done with the
    same result, and in the same state, under the other policy. -/
theorem loop_policy_equivalence (p : Program) (opts : Options) (arguments : List String)
    (files : Files) (stdin : Input) :
    (p.Terminates (opts.leaving true) arguments (Program.start files stdin) ↔
      p.Terminates (opts.leaving false) arguments (Program.start files stdin)) ∧
    (∀ o o', p.Ends (opts.leaving true) arguments (Program.start files stdin) o →
      p.Ends (opts.leaving false) arguments (Program.start files stdin) o' →
      o.Like (fun s t => s.RebindsOnly p.MainLoops t ∧ (s.Open → t = s)) o') ∧
    ∀ atOnce fuel,
      (p.run (opts.leaving atOnce) fuel arguments (Program.start files stdin)).finished = true →
      p.watchedRun (opts.leaving atOnce) (Check.sameCall (opts.leaving !atOnce)) fuel arguments
          (Program.start files stdin)
        = p.run (opts.leaving atOnce) fuel arguments (Program.start files stdin) := by
  refine ⟨⟨?_, ?_⟩, ?_, fun _ _ => Program.run_sameCall⟩
  · rintro ⟨o, ho⟩
    obtain ⟨o', ho', _⟩ := ho.of_policy
    exact ⟨o', ho'⟩
  · rintro ⟨o, ho⟩
    obtain ⟨o', ho', _⟩ := ho.of_policy
    exact ⟨o', ho'⟩
  · -- a run has one outcome, so it is the one that is alike
    intro o o' ho ho'
    obtain ⟨o'', ho'', hlike⟩ := ho.of_policy
    rw [ho'.unique ho'']
    exact hlike

/-- A loop that returns in its first round. -/
def returningLoop : Program where
  functions := []
  main :=
    [.mk .countLoop (some "i")
      [.mk .integer (some "0") [] [] [] none, .mk .integer (some "3") [] [] [] none,
       .mk .integer (some "1") [] [] [] none]
      [.mk .giveBack none [.mk .value (some "i") [] [] [] none] [] [] none] [] none]

/-- The variable of the loop is all that tells the policies apart. -/
example :
    let last (atOnce : Bool) :=
      (returningLoop.run (Options.leaving {} atOnce) 5 [] (Program.start {} {})).state?.bind
        fun t => t.frame.bindings.get? (some "i")
    last true = some (.int 0) ∧ last false = some (.int 2) := ⟨rfl, rfl⟩

end TagScript
