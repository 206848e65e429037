import Mathlib.Data.Rat.Floor
import TagScript.Proofs.Eval.Rounds
import TagScript.Proofs.Safety.Eval

set_option autoImplicit false

/-! # Schedules of loops

A loop over a range or a list settles its rounds before it makes the first one. It makes one round
for each value, the variable being bound to that value in the frame of the loop when the round
starts, and nothing that the body does changes which values are still to come (`Eval.Rounds`): the
body may bind the variable anew, change other lists, or return. If the loop does not come to its end
it is because the body has halted in one of the rounds. -/

namespace TagScript

namespace Eval

/-! ## Rounds -/

/-- The rounds that a body is put through with a name bound to one value after another: the states
    in which they start, and the outcome of all of them. -/
inductive Rounds (body : Run Unit) (name : Name) :
    List Value → State → List State → Outcome State Unit → Prop where
  | finish {s : State} : Rounds body name [] s [] (.done () s)
  | round {v : Value} {rest : List Value} {s t : State} {starts : List State}
      {o : Outcome State Unit} : body (s.bindName name v) = .done () t →
      Rounds body name rest t starts o →
      Rounds body name (v :: rest) s (s.bindName name v :: starts) o
  | halted {v : Value} {rest : List Value} {s t : State} {k : Halt} :
      body (s.bindName name v) = .halted k t →
      Rounds body name (v :: rest) s [s.bindName name v] (.halted k t)
  | outOfFuel {v : Value} {rest : List Value} {s : State} :
      body (s.bindName name v) = .outOfFuel →
      Rounds body name (v :: rest) s [s.bindName name v] .outOfFuel

namespace Rounds

variable {body : Run Unit} {name : Name} {vs : List Value} {s : State} {starts : List State}
  {o : Outcome State Unit}

/-- Rounds that are all done are as many as there are values. -/
theorem length_eq (h : Rounds body name vs s starts o) {t : State} (ho : o = .done () t) :
    starts.length = vs.length := by
  induction h with
  | finish => rfl
  | round _ _ ih => simp [ih ho]
  | halted | outOfFuel => cases ho

/-- Every round starts with the name bound to the value whose turn it is. -/
theorem bound (h : Rounds body name vs s starts o) {k : Nat} {start : State}
    (hk : starts[k]? = some start) :
    ∃ v, vs[k]? = some v ∧ start.frame.bindings.get? name = some v := by
  have hfirst : ∀ (v : Value) (s : State),
      (s.bindName name v).frame.bindings.get? name = some v := by
    intro v s
    simp [State.bindName, Frame.bind, Bindings.get?_insert]
  induction h generalizing k with
  | finish => simp at hk
  | round _ _ ih =>
      rcases k with _ | k
      · obtain rfl := Option.some.inj hk
        exact ⟨_, rfl, hfirst _ _⟩
      · exact ih hk
  | halted | outOfFuel =>
      rcases k with _ | k
      · obtain rfl := Option.some.inj hk
        exact ⟨_, rfl, hfirst _ _⟩
      · simp at hk

/-- Rounds that halt do so in the body. -/
theorem halted_in_body (h : Rounds body name vs s starts o) {k : Halt} {t : State}
    (ho : o = .halted k t) : ∃ start ∈ starts, body start = .halted k t := by
  induction h with
  | finish | outOfFuel => cases ho
  | round _ _ ih =>
      obtain ⟨start, hstart, hbody⟩ := ih ho
      exact ⟨start, List.mem_cons_of_mem _ hstart, hbody⟩
  | halted hbody => exact ⟨_, List.mem_cons_self, hbody.trans ho⟩

end Rounds

/-- Under the policy that leaves no loop early, the loop over a list makes its rounds. -/
theorem itemRounds_rounds {opts : Options} (hpolicy : opts.shortCircuitLoops = false) (name : Name)
    (body : Run Unit) {vs : List Value} (hvs : ∀ v ∈ vs, v ≠ .absent) (s : State) :
    ∃ starts, Rounds body name vs s starts (itemRounds opts name body vs s) := by
  induction vs generalizing s with
  | nil => exact ⟨[], .finish⟩
  | cons v rest ih =>
      have hleaves : ¬ Leaves opts s := by simp [Leaves, hpolicy]
      rw [itemRounds_of_present hleaves (hvs v List.mem_cons_self), Run.bind_apply]
      cases hbody : body (s.bindName name v) with
      | done a t =>
          obtain ⟨starts, hrest⟩ := ih (fun w hw => hvs w (List.mem_cons_of_mem v hw)) t
          exact ⟨_, .round hbody hrest⟩
      | halted k t => exact ⟨_, .halted hbody⟩
      | outOfFuel => exact ⟨_, .outOfFuel hbody⟩

/-! ## The number of rounds over a range -/

theorem roundCount_eq (first last : Int) {step : Int} (hstep : 0 < step) :
    (roundCount first last step : Int) = max 0 ⌈((last - first : Int) : ℚ) / (step : ℚ)⌉ := by
  have hpos : (0 : ℚ) < step := by exact_mod_cast hstep
  have hmod := Int.emod_add_mul_ediv (last - first + step - 1) step
  have hlow := Int.emod_nonneg (last - first + step - 1) (Int.ne_of_gt hstep)
  have hhigh := Int.emod_lt_of_pos (last - first + step - 1) hstep
  have hceil : ⌈((last - first : Int) : ℚ) / (step : ℚ)⌉ = (last - first + step - 1) / step := by
    generalize (last - first + step - 1) / step = z at hmod
    refine Int.ceil_eq_iff.2 ⟨?_, ?_⟩
    · rw [lt_div_iff₀ hpos]
      have hlt : (z - 1) * step < last - first := by
        rw [Int.sub_mul, Int.one_mul, Int.mul_comm z]
        omega
      exact_mod_cast hlt
    · rw [div_le_iff₀ hpos]
      have hle : last - first ≤ z * step := by
        rw [Int.mul_comm z]
        omega
      exact_mod_cast hle
  rw [hceil, roundCount, Int.ofNat_toNat, max_comm]

/-! ## Loops -/

/-- The outcome of a loop whose rounds have the given outcome: a loop gives no value, and a fault
    that has no place yet is placed at it. -/
def loopOutcome (span : Option Span) : Outcome State Unit → Outcome State (Option Value)
  | .done () t => .done none t
  | .halted k t => .halted (k.locate span) t
  | .outOfFuel => .outOfFuel

/-- From the state `u`, in which its bounds are known, the loop over a range makes its rounds. -/
structure CountSchedule (opts : Options) (fuel : Nat) (outer : List Frame) (i : Instr) (s : State)
    (first last step : Int) (u : State) (starts : List State) (o : Outcome State Unit) :
    Prop where
  outcome : eval opts (fuel + 1) outer i s = loopOutcome i.span o
  rounds : Rounds (block (eval opts fuel outer) i.body) i.value
    (counts step (roundCount first last step) first) u starts o
  number : ∀ t, o = .done () t →
    (starts.length : Int) = max 0 ⌈((last - first : Int) : ℚ) / (step : ℚ)⌉
  bound : ∀ (k : Nat) (start : State), starts[k]? = some start →
    start.frame.bindings.get? i.value = some (.int (first + k * step))
  /-- The loop itself does not halt. -/
  halt : ∀ h t, o = .halted h t → ∃ start ∈ starts,
    block (eval opts fuel outer) i.body start = .halted h t

/-- From the state `u`, in which its list is known, the loop over the list makes its rounds. -/
structure EachSchedule (opts : Options) (fuel : Nat) (outer : List Frame) (i : Instr) (s : State)
    (id : Nat) (u : State) (starts : List State) (o : Outcome State Unit) : Prop where
  outcome : eval opts (fuel + 1) outer i s = loopOutcome i.span (o.mapState (State.unlock · id))
  rounds : Rounds (block (eval opts fuel outer) i.body) i.value (u.store.heap.items id).toList
    (u.lock id) starts o
  number : ∀ t, o = .done () t → starts.length = (u.store.heap.items id).size
  bound : ∀ (k : Nat) (start : State), starts[k]? = some start →
    ∃ v, (u.store.heap.items id)[k]? = some v ∧ start.frame.bindings.get? i.value = some v
  /-- The loop itself does not halt. -/
  halt : ∀ h t, o = .halted h t → ∃ start ∈ starts,
    block (eval opts fuel outer) i.body start = .halted h t

section Loops

variable {opts : Options} {fuel : Nat} {outer : List Frame} {i : Instr} {s u : State}

/-- The outcome of a loop is that of its rounds. -/
theorem eval_loop {m : Run Unit} (hs : s.Open)
    (hloop : perform opts (eval opts fuel) fuel outer i (s.traced opts i)
      = (m >>= fun _ => pure none) u) :
    eval opts (fuel + 1) outer i s = loopOutcome i.span (m u) := by
  show step opts (eval opts fuel) fuel outer i s = _
  rw [step_of_open opts _ fuel outer i hs, Run.located, hloop, Run.bind_apply]
  cases m u <;> rfl

theorem countLoop_scheduled (hpolicy : opts.shortCircuitLoops = false) (hs : s.Open)
    (hkind : i.kind = .countLoop) {first last step : Int}
    (hvalues : values (eval opts fuel outer) "for" i.operands (s.traced opts i)
      = .done [.int first, .int last, .int step] u)
    (hstep : 0 < step) (hfirst : Value.Fits first) (hlast : Value.Fits last) :
    ∃ starts o, CountSchedule opts fuel outer i s first last step u starts o := by
  have hfit : ∀ k < roundCount first last step, Value.Fits (first + k * step) := by
    intro k hk
    obtain ⟨hle, hlt⟩ := count_mem_range hstep hk
    exact ⟨Int.le_trans hfirst.1 hle, Int.le_trans (Int.le_of_lt hlt) hlast.2⟩
  have hpresent : ∀ v ∈ counts step (roundCount first last step) first, v ≠ .absent := by
    rintro v hv rfl
    obtain ⟨k, -, hk⟩ := mem_counts hv
    cases hk
  obtain ⟨starts, hrounds⟩ := itemRounds_rounds hpolicy i.value
    (block (eval opts fuel outer) i.body) hpresent u
  rw [← countRounds_eq_itemRounds hfit] at hrounds
  refine ⟨starts, _, ⟨?_, hrounds, fun t ht => ?_, fun k start hk => ?_, fun h t ht => ?_⟩⟩
  · refine eval_loop hs ?_
    simp only [perform, hkind, countLoop]
    rw [Run.bind_done hvalues]
    exact congrFun (if_neg (Int.not_le.2 hstep)) u
  · rw [hrounds.length_eq ht, length_counts, roundCount_eq first last hstep]
  · obtain ⟨v, hv, hbound⟩ := hrounds.bound hk
    rw [hbound, getElem?_counts hv]
  · exact hrounds.halted_in_body ht

theorem eachLoop_scheduled (hpolicy : opts.shortCircuitLoops = false) (hs : s.Open)
    (hkind : i.kind = .eachLoop) {e : Instr} {id : Nat} (he : i.operands.head? = some e)
    (hlist : eval opts fuel outer e (s.traced opts i) = .done (some (.list id)) u)
    (hitems : ∀ v ∈ u.store.heap.items id, v ≠ .absent) :
    ∃ starts o, EachSchedule opts fuel outer i s id u starts o := by
  have hpresent : ∀ v ∈ (u.store.heap.items id).toList, v ≠ .absent :=
    fun v hv => hitems v (Array.mem_toList_iff.1 hv)
  obtain ⟨starts, hrounds⟩ := itemRounds_rounds hpolicy i.value
    (block (eval opts fuel outer) i.body) hpresent (u.lock id)
  refine ⟨starts, _, ⟨?_, hrounds, fun t ht => ?_, fun k start hk => ?_, fun h t ht => ?_⟩⟩
  · have hloop : perform opts (eval opts fuel) fuel outer i (s.traced opts i)
        = (listRounds opts (eval opts fuel outer) i id (u.store.heap.items id)
            >>= fun _ => pure none) u := by
      simp only [perform, hkind]
      exact eachLoop_of_list opts he hlist
    exact eval_loop hs hloop
  · rw [hrounds.length_eq ht, Array.length_toList]
  · obtain ⟨v, hv, hbound⟩ := hrounds.bound hk
    exact ⟨v, by simpa using hv, hbound⟩
  · exact hrounds.halted_in_body ht

end Loops

end Eval

/-! ## Loops in runs -/

/-- If the instruction is a loop over a range or a list, it goes by its schedule, whatever the fuel,
    once its bounds or its list are known. -/
def Check.Scheduled (opts : Options) : Check := fun outer i s _ =>
  s.Open → ∀ fuel,
    (i.kind = .countLoop → ∀ first last step u,
      Eval.values (eval opts fuel outer) "for" i.operands (s.traced opts i)
        = .done [.int first, .int last, .int step] u →
      0 < step → ∃ starts o, Eval.CountSchedule opts fuel outer i s first last step u starts o) ∧
    (i.kind = .eachLoop → ∀ e id u, i.operands.head? = some e →
      eval opts fuel outer e (s.traced opts i) = .done (some (.list id)) u →
      ∃ starts o, Eval.EachSchedule opts fuel outer i s id u starts o)

/-- In safe runs the bounds are integers of 64 bits, and all items are there. -/
theorem Watch.passes_scheduled {w : Watch} (hpolicy : w.opts.shortCircuitLoops = false)
    (hcheck : w.check = Check.Scheduled w.opts) : w.Passes 0 := by
  intro outer i s o hi houter hs _
  rw [hcheck]
  intro hopen fuel
  constructor
  · intro hkind first last step u hvalues hstep
    have hgood := (values_proper hi houter hs.proper (List.Subset.refl _) hvalues).2
    exact Eval.countLoop_scheduled hpolicy hopen hkind hvalues hstep
      (hgood (.int first) (by simp)).1 (hgood (.int last) (by simp)).1
  · intro hkind e id u he hlist
    have hsub : [e] ⊆ i.operands := by
      rw [List.cons_subset]
      exact ⟨List.mem_of_head? he, List.nil_subset _⟩
    have hvalues : Eval.values (eval w.opts fuel outer) "each" [e] (s.traced w.opts i)
        = .done [.list id] u := Run.bind_done (Eval.required_done "each" hlist)
    have hproper := (values_proper hi houter hs.proper hsub hvalues).1
    exact Eval.eachLoop_scheduled hpolicy hopen hkind he hlist fun v hv =>
      (hproper.heap id v hv).1.ne_absent

/-- Under the default policy every loop over a range or a list goes by a schedule that is settled
    when it starts, whatever its body does. So does every loop in every run of an analysed program,
    where bounds always fit and items are always there. -/
theorem loop_schedule {opts : Options} (hpolicy : opts.shortCircuitLoops = false) :
    (∀ fuel outer i s, s.Open → i.kind = .countLoop → ∀ first last step u,
      Eval.values (eval opts fuel outer) "for" i.operands (s.traced opts i)
        = .done [.int first, .int last, .int step] u →
      0 < step → Value.Fits first → Value.Fits last →
      ∃ starts o, Eval.CountSchedule opts fuel outer i s first last step u starts o) ∧
    (∀ fuel outer i s, s.Open → i.kind = .eachLoop → ∀ e id u, i.operands.head? = some e →
      eval opts fuel outer e (s.traced opts i) = .done (some (.list id)) u →
      (∀ v ∈ u.store.heap.items id, v ≠ .absent) →
      ∃ starts o, Eval.EachSchedule opts fuel outer i s id u starts o) ∧
    ∀ root p, (Analysis.program root).outcome = .ok p → ∀ arguments files stdin fuel alarm,
      p.alarmedRun opts (Check.Scheduled opts) alarm fuel arguments (Program.start files stdin)
        = p.run opts fuel arguments (Program.start files stdin) := by
  refine ⟨fun fuel outer i s hs hkind first last step u => ?_,
    fun fuel outer i s hs hkind e id u => ?_,
    fun root p hp arguments files stdin fuel alarm => ?_⟩
  · exact Eval.countLoop_scheduled hpolicy hs hkind
  · exact Eval.eachLoop_scheduled hpolicy hs hkind
  · let w : Watch := ⟨p, arguments, opts, Check.Scheduled opts, alarm, Analysis.program_shaped hp⟩
    exact (w.run_safe (w.passes_scheduled hpolicy rfl) fuel (Program.start files stdin)
      (w.kept_start files stdin)).2

/-- A loop with a bound at the end of the range of integers, whose steps would lead past it, and
    whose body binds the variable anew and returns. -/
def lastLoop : Instr :=
  let named (name : String) : Instr := .mk .value (some name) [] [] [] none
  .mk .countLoop (some "i") [named "low", named "high", named "high"]
    [.mk .assign (some "i") [named "high"] [] [] none,
     .mk .giveBack none [named "i"] [] [] none] [] none

/-- A frame with the bounds of the loop. -/
def lastFrame : Frame :=
  (({} : Frame).bind (some "low") (.int (-1))).bind (some "high") (.int Value.maxInteger)

/-- The loop makes both rounds, though the first one returns. -/
theorem loop_schedule_last : ∃ starts t,
    Eval.CountSchedule {} 3 [] lastLoop { frame := lastFrame } (-1) Value.maxInteger
      Value.maxInteger { frame := lastFrame } starts (.done () t) ∧ starts.length = 2 ∧
    t.frame.returned = some (.int Value.maxInteger) := by
  have hpolicy : ({} : Options).shortCircuitLoops = false := rfl
  obtain ⟨starts, o, h⟩ := (loop_schedule hpolicy).1 3 [] lastLoop { frame := lastFrame } rfl rfl
    (-1) Value.maxInteger Value.maxInteger { frame := lastFrame } rfl (by decide)
    ⟨by decide, by decide⟩ ⟨by decide, by decide⟩
  obtain ⟨t, ht, hreturned⟩ : ∃ t, eval {} 4 [] lastLoop { frame := lastFrame } = .done none t ∧
      t.frame.returned = some (.int Value.maxInteger) := ⟨_, rfl, rfl⟩
  have houtcome := h.outcome
  rw [ht] at houtcome
  cases o with
  | done _ t' =>
      cases houtcome
      refine ⟨starts, t, h, ?_, hreturned⟩
      rw [h.rounds.length_eq rfl, Eval.length_counts]
      decide
  | halted | outOfFuel => cases houtcome

end TagScript
