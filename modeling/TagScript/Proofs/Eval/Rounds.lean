import TagScript.Proofs.Eval.Level

set_option autoImplicit false

/-! # Rounds of loops

Each loop is taken apart at its next round, and the loops over a range or a list also after any
number of rounds. -/

namespace TagScript

/-- The number is an integer of 64 bits. -/
def Value.Fits (n : Int) : Prop := minInteger ≤ n ∧ n ≤ maxInteger

theorem Value.copy_of_ne {v : Value} (hv : v ≠ .absent) : v.copy = .ok v := by
  cases v with
  | absent => exact absurd rfl hv
  | _ => rfl

/-- The state with a name bound anew in the innermost frame. -/
def State.bindName (s : State) (name : Name) (v : Value) : State :=
  { s with frame := s.frame.bind name v }

/-- The state with a name bound to one value after another. -/
def State.bindAll (s : State) (name : Name) (vs : List Value) : State :=
  vs.foldl (fun s v => s.bindName name v) s

/-- The state in which the rounds over a list run. -/
def State.lock (s : State) (id : Nat) : State :=
  { s with store := { s.store with heap := s.store.heap.beginIteration id } }

/-- The state after the rounds over a list. -/
def State.unlock (s : State) (id : Nat) : State :=
  { s with store := { s.store with heap := s.store.heap.endIteration id } }

theorem Run.iterating_apply {α : Type} (id : Nat) (m : Run α) (s : State) :
    Run.iterating id m s = (m (s.lock id)).mapState (State.unlock · id) := rfl

namespace Eval

/-- The loop is left before its next round. -/
def Leaves (opts : Options) (s : State) : Prop := opts.shortCircuitLoops = true ∧ ¬ s.Open

theorem leaveLoop_of_leaves {opts : Options} {s : State} (h : Leaves opts s) :
    leaveLoop opts s = .done true s := by
  obtain ⟨v, hv⟩ := State.not_open_iff.1 h.2
  show Outcome.done (opts.shortCircuitLoops && s.frame.returned.isSome) s = _
  rw [h.1, hv]
  rfl

theorem leaveLoop_of_not_leaves {opts : Options} {s : State} (h : ¬ Leaves opts s) :
    leaveLoop opts s = .done false s := by
  show Outcome.done (opts.shortCircuitLoops && s.frame.returned.isSome) s = _
  by_cases hp : opts.shortCircuitLoops = true
  · have ho : s.frame.returned = none := Classical.byContradiction fun hn => h ⟨hp, hn⟩
    rw [ho, Option.isSome_none, Bool.and_false]
  · rw [Bool.eq_false_iff.2 hp, Bool.false_and]

theorem not_leaves_of_open {opts : Options} {s : State} (h : s.Open) : ¬ Leaves opts s :=
  fun hl => hl.2 h

/-! ## Loops over a range -/

section Count

variable {opts : Options} {name : Name} {step : Int} {body : Run Unit} {rounds : Nat} {first : Int}
  {s : State}

theorem countRounds_of_leaves (h : Leaves opts s) :
    countRounds opts name step body rounds first s = .done () s := by
  cases rounds with
  | zero => rfl
  | succ rounds =>
      unfold countRounds
      rw [Run.bind_done (leaveLoop_of_leaves h)]
      rfl

theorem countRounds_of_fits (h : ¬ Leaves opts s) (hfit : Value.Fits first) :
    countRounds opts name step body (rounds + 1) first s
      = (body >>= fun _ => countRounds opts name step body rounds (first + step))
          (s.bindName name (.int first)) := by
  have hint : Value.integer "for" first = .ok (.int first) := if_pos hfit
  conv => lhs; unfold countRounds
  rw [Run.bind_done (leaveLoop_of_not_leaves h), hint]
  rfl

theorem countRounds_of_not_fits (h : ¬ Leaves opts s) (hfit : ¬ Value.Fits first) :
    countRounds opts name step body (rounds + 1) first s
      = .halted (.refused "for" .overflow) s := by
  have hint : Value.integer "for" first = .error (.refused "for" .overflow) := if_neg hfit
  unfold countRounds
  rw [Run.bind_done (leaveLoop_of_not_leaves h), hint]
  rfl

/-- The rounds of a loop are its first rounds and then the others. A loop that is left during the
    first rounds is left again before the others. -/
theorem countRounds_add (more : Nat) :
    countRounds opts name step body (rounds + more) first s
      = (countRounds opts name step body rounds first >>= fun _ =>
          countRounds opts name step body more (first + rounds * step)) s := by
  induction rounds generalizing first s with
  | zero =>
      rw [Nat.zero_add, Int.natCast_zero, Int.zero_mul, Int.add_zero]
      rfl
  | succ rounds ih =>
      have hnext : first + ((rounds + 1 : Nat) : Int) * step = first + step + rounds * step := by
        rw [Int.natCast_succ, Int.add_mul, Int.one_mul]
        omega
      by_cases hl : Leaves opts s
      · rw [countRounds_of_leaves hl, Run.bind_done (countRounds_of_leaves hl),
          countRounds_of_leaves hl]
      · by_cases hfit : Value.Fits first
        · rw [Nat.add_right_comm, countRounds_of_fits hl hfit, Run.bind_apply, Run.bind_apply,
            countRounds_of_fits hl hfit, Run.bind_apply, hnext]
          cases body (s.bindName name (.int first)) with
          | done a t => exact ih
          | halted k t => rfl
          | outOfFuel => rfl
        · rw [Nat.add_right_comm, countRounds_of_not_fits hl hfit,
            Run.bind_halted (countRounds_of_not_fits hl hfit)]

end Count

/-! ## Loops over a list -/

section Items

variable {opts : Options} {name : Name} {body : Run Unit} {v : Value} {rest : List Value}
  {s : State}

theorem itemRounds_of_leaves {items : List Value} (h : Leaves opts s) :
    itemRounds opts name body items s = .done () s := by
  cases items with
  | nil => rfl
  | cons v rest =>
      unfold itemRounds
      rw [Run.bind_done (leaveLoop_of_leaves h)]
      rfl

theorem itemRounds_of_present (h : ¬ Leaves opts s) (hv : v ≠ .absent) :
    itemRounds opts name body (v :: rest) s
      = (body >>= fun _ => itemRounds opts name body rest) (s.bindName name v) := by
  conv => lhs; unfold itemRounds
  rw [Run.bind_done (leaveLoop_of_not_leaves h), Value.copy_of_ne hv]
  rfl

theorem itemRounds_of_absent (h : ¬ Leaves opts s) :
    itemRounds opts name body (.absent :: rest) s = .halted (.crash .absentCopied) s := by
  unfold itemRounds
  rw [Run.bind_done (leaveLoop_of_not_leaves h)]
  rfl

theorem itemRounds_append (items more : List Value) :
    itemRounds opts name body (items ++ more) s
      = (itemRounds opts name body items >>= fun _ => itemRounds opts name body more) s := by
  induction items generalizing s with
  | nil => rfl
  | cons v rest ih =>
      by_cases hl : Leaves opts s
      · rw [itemRounds_of_leaves hl, Run.bind_done (itemRounds_of_leaves hl),
          itemRounds_of_leaves hl]
      · by_cases hv : v = .absent
        · subst hv
          rw [List.cons_append, itemRounds_of_absent hl, Run.bind_halted (itemRounds_of_absent hl)]
        · rw [List.cons_append, itemRounds_of_present hl hv, Run.bind_apply, Run.bind_apply,
            itemRounds_of_present hl hv, Run.bind_apply]
          cases body (s.bindName name v) with
          | done a t => exact ih
          | halted k t => rfl
          | outOfFuel => rfl

/-- The values that a loop over a range binds its variable to. -/
def counts (step : Int) : (rounds : Nat) → (first : Int) → List Value
  | 0, _ => []
  | rounds + 1, first => .int first :: counts step rounds (first + step)

/-- A loop over a range of integers of 64 bits is a loop over the list of them. -/
theorem countRounds_eq_itemRounds {step : Int} {rounds : Nat} {first : Int}
    (hfit : ∀ k < rounds, Value.Fits (first + k * step)) :
    countRounds opts name step body rounds first
      = itemRounds opts name body (counts step rounds first) := by
  induction rounds generalizing first with
  | zero => rfl
  | succ rounds ih =>
      have hfirst : Value.Fits first := by
        simpa using hfit 0 (Nat.succ_pos rounds)
      have hrest : ∀ k < rounds, Value.Fits (first + step + k * step) := by
        intro k hk
        have hnext := hfit (k + 1) (Nat.succ_lt_succ hk)
        rw [Int.natCast_succ, Int.add_mul, Int.one_mul] at hnext
        rw [Int.add_assoc, Int.add_comm step]
        exact hnext
      have hint : Value.integer "for" first = .ok (.int first) := if_pos hfirst
      unfold countRounds
      rw [hint, ih hrest]
      rfl

theorem length_counts (step : Int) (rounds : Nat) (first : Int) :
    (counts step rounds first).length = rounds := by
  induction rounds generalizing first with
  | zero => rfl
  | succ rounds ih => simp [counts, ih]

theorem getElem?_counts {step : Int} {rounds k : Nat} {first : Int} {v : Value}
    (h : (counts step rounds first)[k]? = some v) : v = .int (first + k * step) := by
  induction rounds generalizing first k with
  | zero => simp [counts] at h
  | succ rounds ih =>
      rcases k with _ | k
      · obtain rfl := Option.some.inj h
        simp
      · rw [ih h, Int.natCast_succ, Int.add_mul, Int.one_mul, Int.add_comm (k * step),
          Int.add_assoc]

theorem mem_counts {step : Int} {rounds : Nat} {first : Int} {v : Value}
    (h : v ∈ counts step rounds first) : ∃ k < rounds, v = .int (first + k * step) := by
  obtain ⟨k, hk⟩ := List.mem_iff_getElem?.1 h
  have hlt := (List.getElem?_eq_some_iff.1 hk).1
  rw [length_counts] at hlt
  exact ⟨k, hlt, getElem?_counts hk⟩

/-- The numbers of a range lie between its bounds. -/
theorem count_mem_range {first last step : Int} (hstep : 0 < step) {k : Nat}
    (hk : k < roundCount first last step) :
    first ≤ first + k * step ∧ first + k * step < last := by
  have hpos : 0 ≤ (k : Int) * step := Int.mul_nonneg (Int.natCast_nonneg k) (Int.le_of_lt hstep)
  have hle : ((k : Int) + 1) * step ≤ last - first + step - 1 := by
    have hdiv : (k : Int) + 1 ≤ (last - first + step - 1) / step := by
      unfold roundCount at hk
      omega
    calc ((k : Int) + 1) * step
        ≤ (last - first + step - 1) / step * step :=
          Int.mul_le_mul_of_nonneg_right hdiv (Int.le_of_lt hstep)
      _ ≤ last - first + step - 1 := Int.ediv_mul_le _ (Int.ne_of_gt hstep)
  rw [Int.add_mul, Int.one_mul] at hle
  omega

/-- The rounds of a loop over a list that has the items `items` when the loop starts. -/
def listRounds (opts : Options) (ev : Instr → Run (Option Value)) (i : Instr) (id : Nat)
    (items : Array Value) : Run Unit :=
  Run.iterating id (itemRounds opts i.value (block ev i.body) items.toList)

/-- The loop over a list, once its operand has been evaluated, consists of its rounds. -/
theorem eachLoop_of_list (opts : Options) {ev : Instr → Run (Option Value)} {i e : Instr} {id : Nat}
    {s u : State} (he : i.operands.head? = some e) (hev : ev e s = .done (some (.list id)) u) :
    eachLoop opts ev i s
      = (listRounds opts ev i id (u.store.heap.items id) >>= fun _ => pure none) u := by
  unfold eachLoop
  rw [firstOperand_of_head? he, pure_bind, Run.bind_done (required_done "each" hev)]
  rfl

/-- A loop over a list that is done has gone through its rounds with the list locked. -/
theorem eachLoop_eq_done {ev : Instr → Run (Option Value)} {i : Instr} {t : State}
    {r : Option Value} (h : eachLoop opts ev i s = .done r t) :
    ∃ e id u x, i.operands.head? = some e ∧ ev e s = .done (some (.list id)) u ∧
      itemRounds opts i.value (block ev i.body) (u.store.heap.items id).toList (u.lock id)
        = .done () x ∧
      t = x.unlock id := by
  obtain ⟨e, hop, hrest⟩ := firstOperand_bind_eq_done h
  obtain ⟨c, u, hc, hrest⟩ := Run.bind_eq_done hrest
  cases c with
  | list id =>
      obtain ⟨_, w, hw, hend⟩ :=
        Run.bind_eq_done (m := Run.iterating id
          (itemRounds opts i.value (block ev i.body) (u.store.heap.items id).toList)) hrest
      cases hend
      rw [Run.iterating_apply] at hw
      cases hrounds : itemRounds opts i.value (block ev i.body) (u.store.heap.items id).toList
          (u.lock id) with
      | done a x =>
          rw [hrounds] at hw
          cases hw
          exact ⟨e, id, u, x, hop, required_eq_done hc, hrounds, rfl⟩
      | halted k x =>
          rw [hrounds] at hw
          cases hw
      | outOfFuel =>
          rw [hrounds] at hw
          cases hw
  | _ => cases hrest

end Items

/-! ## Loops on a condition -/

section While

variable {test : Run Bool} {body : Run Unit} {fuel : Nat} {s : State}

theorem whileRounds_of_not_open (h : ¬ s.Open) :
    whileRounds test body (fuel + 1) s = .done () s := by
  obtain ⟨v, hv⟩ := State.not_open_iff.1 h
  have hret : Run.returning s = .done true s := by simp [Run.returning, hv]
  unfold whileRounds
  rw [Run.bind_done hret]
  rfl

theorem whileRounds_of_open (h : s.Open) :
    whileRounds test body (fuel + 1) s
      = (test >>= fun holds =>
          if holds then body >>= fun _ => whileRounds test body fuel else pure ()) s := by
  have hret : Run.returning s = .done false s := by
    simp [Run.returning, show s.frame.returned = none from h]
  conv => lhs; unfold whileRounds
  rw [Run.bind_done hret]
  rfl

end While

end Eval

end TagScript
