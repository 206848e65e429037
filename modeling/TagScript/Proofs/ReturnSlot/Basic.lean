import TagScript.Proofs.Eval.Frame
import TagScript.Proofs.Eval.Rounds

set_option autoImplicit false

/-! # The return slot of a frame

An evaluation looks at the return slot where it starts, and nowhere else. Still, one that gives a
value has left the slot empty (`eval_openOnValue`): a part that fills the slot gives no value, and
an instruction that needs one then halts. Once the slot is filled, blocks and loops on a condition
do nothing, and the other loops can at most bind their own variable. -/

namespace TagScript

/-! ## Runs that leave the slot empty -/

/-- The run, if it is done, leaves an open frame open. -/
def Run.KeepsOpen {α : Type} (m : Run α) : Prop := m.Keeps fun f => f.returned = none

/-- The run, if it gives a value, leaves an open frame open. -/
def Run.OpenOnValue (m : Run (Option Value)) : Prop := m.KeepsOnValue fun f => f.returned = none

/-- Instructions that neither return nor run blocks leave the slot empty. -/
theorem Eval.perform_keepsOpen {ev : Evaluator} (hev : ∀ outer i, (ev outer i).OpenOnValue)
    (opts : Options) (fuel : Nat) (outer : List Frame) {i : Instr}
    (hi : i.kind.mayReturn = false) : (perform opts ev fuel outer i).KeepsOpen :=
  perform_keeps hev opts fuel outer hi fun _ _ _ _ hs => hs

/-- An evaluation that gives a value leaves the slot empty. -/
theorem eval_openOnValue (opts : Options) (fuel : Nat) (outer : List Frame) (i : Instr) :
    (eval opts fuel outer i).OpenOnValue :=
  eval_keepsOnValue _ opts fuel outer i

/-! ## Blocks and loops in a frame that has returned -/

/-- The states differ in the bindings of these names at most. -/
structure State.RebindsOnly (names : Name → Prop) (s t : State) : Prop where
  store : t.store = s.store
  depth : t.depth = s.depth
  returned : t.frame.returned = s.frame.returned
  bindings : ∀ name, ¬ names name → t.frame.bindings.get? name = s.frame.bindings.get? name

namespace State.RebindsOnly

variable {names : Name → Prop} {s t u : State}

theorem refl (names : Name → Prop) (s : State) : s.RebindsOnly names s :=
  ⟨rfl, rfl, rfl, fun _ _ => rfl⟩

theorem trans (h : s.RebindsOnly names t) (k : t.RebindsOnly names u) : s.RebindsOnly names u where
  store := k.store.trans h.store
  depth := k.depth.trans h.depth
  returned := k.returned.trans h.returned
  bindings name hn := (k.bindings name hn).trans (h.bindings name hn)

theorem symm (h : s.RebindsOnly names t) : t.RebindsOnly names s where
  store := h.store.symm
  depth := h.depth.symm
  returned := h.returned.symm
  bindings name hn := (h.bindings name hn).symm

theorem open_iff (h : s.RebindsOnly names t) : t.Open ↔ s.Open := by
  unfold State.Open
  rw [h.returned]

theorem bind {name : Name} (hname : names name) (v : Value) (s : State) :
    s.RebindsOnly names (s.bindName name v) where
  store := rfl
  depth := rfl
  returned := rfl
  bindings other ho := by
    have hne : other ≠ name := by
      rintro rfl
      exact ho hname
    show (s.frame.bindings.insert name v).get? other = _
    rw [Bindings.get?_insert, if_neg hne]

theorem bindAll {name : Name} (hname : names name) (vs : List Value) (s : State) :
    s.RebindsOnly names (s.bindAll name vs) := by
  induction vs generalizing s with
  | nil => exact refl names s
  | cons v rest ih => exact (bind hname v s).trans (ih (s.bindName name v))

end State.RebindsOnly

/-- The run does nothing in a frame that has returned. -/
def Run.Idle (m : Run Unit) : Prop := ∀ s : State, ¬ s.Open → m s = .done () s

/-- The run does nothing in a frame that has returned, if it has ever filled the slot. -/
def Run.IdleOnceFilled (m : Run Unit) : Prop :=
  ∀ s t : State, s.Open → ¬ t.Open → m s = .done () t → m.Idle

/-- A block that has filled the slot had fuel. -/
theorem fuel_of_filled {opts : Options} {fuel : Nat} {outer : List Frame} {is : List Instr}
    {s t : State} (hs : s.Open) (ht : ¬ t.Open)
    (h : Eval.block (eval opts fuel outer) is s = .done () t) : ∃ k, fuel = k + 1 := by
  cases fuel with
  | succ k => exact ⟨k, rfl⟩
  | zero =>
      cases is with
      | nil =>
          cases h
          exact absurd hs ht
      | cons i rest => cases h

theorem block_idleOnceFilled (opts : Options) (fuel : Nat) (outer : List Frame) (is : List Instr) :
    (Eval.block (eval opts fuel outer) is).IdleOnceFilled := by
  intro s t hs ht h
  obtain ⟨k, rfl⟩ := fuel_of_filled hs ht h
  exact fun _ hu => block_of_not_open opts k outer is hu

namespace Eval

/-- A loop over a range is left at once or goes on binding its variable. It halts only at a number
    that does not fit in 64 bits. -/
theorem countRounds_of_not_open (opts : Options) (name : Name) (step : Int) {body : Run Unit}
    (hbody : body.Idle) (rounds : Nat) (first : Int) {s : State} (hs : ¬ s.Open) :
    ∃ t, s.RebindsOnly (· = name) t ∧
      (countRounds opts name step body rounds first s = .done () t ∨
        (∃ h, countRounds opts name step body rounds first s = .halted h t) ∧
          ∃ k < rounds, ¬ Value.Fits (first + k * step)) := by
  induction rounds generalizing first s with
  | zero => exact ⟨s, .refl _ _, .inl rfl⟩
  | succ rounds ih =>
      by_cases hl : Leaves opts s
      · exact ⟨s, .refl _ _, .inl (countRounds_of_leaves hl)⟩
      · by_cases hfit : Value.Fits first
        · have hopen : ¬ (s.bindName name (.int first)).Open := hs
          obtain ⟨t, ht, hrun⟩ := ih (first + step) hopen
          have hbind : s.RebindsOnly (· = name) (s.bindName name (.int first)) := by
            apply State.RebindsOnly.bind
            rfl
          refine ⟨t, hbind.trans ht, ?_⟩
          rw [countRounds_of_fits hl hfit, Run.bind_done (hbody _ hopen)]
          refine hrun.imp id ?_
          rintro ⟨hhalt, k, hk, hbad⟩
          refine ⟨hhalt, k + 1, by omega, ?_⟩
          rw [Int.natCast_succ, Int.add_mul, Int.one_mul, Int.add_comm (k * step), ← Int.add_assoc]
          exact hbad
        · exact ⟨s, .refl _ _, .inr ⟨⟨_, countRounds_of_not_fits hl hfit⟩, 0, by omega,
            by simpa using hfit⟩⟩

theorem countRounds_rebindsOnly {opts : Options} {name : Name} {step : Int} {body : Run Unit}
    (hbody : body.Idle) {rounds : Nat} {first : Int} {s t : State} (hs : ¬ s.Open)
    (h : (countRounds opts name step body rounds first s).state? = some t) :
    s.RebindsOnly (· = name) t := by
  obtain ⟨u, hu, hrun | ⟨⟨k, hrun⟩, _⟩⟩ :=
    countRounds_of_not_open opts name step hbody rounds first hs
  · rw [hrun] at h
    cases h
    exact hu
  · rw [hrun] at h
    cases h
    exact hu

/-- A loop over a list is left at once or goes on binding its variable. It halts only at an item
    that is absent. -/
theorem itemRounds_of_not_open (opts : Options) (name : Name) {body : Run Unit} (hbody : body.Idle)
    (items : List Value) {s : State} (hs : ¬ s.Open) :
    ∃ t, s.RebindsOnly (· = name) t ∧
      (itemRounds opts name body items s = .done () t ∨
        (∃ h, itemRounds opts name body items s = .halted h t) ∧ .absent ∈ items) := by
  induction items generalizing s with
  | nil => exact ⟨s, .refl _ _, .inl rfl⟩
  | cons v rest ih =>
      by_cases hl : Leaves opts s
      · exact ⟨s, .refl _ _, .inl (itemRounds_of_leaves hl)⟩
      · by_cases hv : v = .absent
        · subst hv
          exact ⟨s, .refl _ _, .inr ⟨⟨_, itemRounds_of_absent hl⟩, List.mem_cons_self⟩⟩
        · have hopen : ¬ (s.bindName name v).Open := hs
          obtain ⟨t, ht, hrun⟩ := ih hopen
          have hbind : s.RebindsOnly (· = name) (s.bindName name v) := by
            apply State.RebindsOnly.bind
            rfl
          refine ⟨t, hbind.trans ht, ?_⟩
          rw [itemRounds_of_present hl hv, Run.bind_done (hbody _ hopen)]
          exact hrun.imp id fun h => ⟨h.1, List.mem_cons_of_mem _ h.2⟩

/-- The items that a loop still binds its variable to in a frame that has returned. -/
def bindsLater (opts : Options) (items : List Value) : List Value :=
  if opts.shortCircuitLoops then [] else items

theorem itemRounds_of_filled {opts : Options} {name : Name} {body : Run Unit} (hbody : body.Idle)
    {items : List Value} (hitems : ∀ v ∈ items, v ≠ .absent) {s : State} (hs : ¬ s.Open) :
    itemRounds opts name body items s = .done () (s.bindAll name (bindsLater opts items)) := by
  unfold bindsLater
  by_cases hp : opts.shortCircuitLoops = true
  · rw [if_pos hp]
    exact itemRounds_of_leaves ⟨hp, hs⟩
  · rw [if_neg hp]
    have hl : ∀ s, ¬ Leaves opts s := fun _ hl => hp hl.1
    induction items generalizing s with
    | nil => rfl
    | cons v rest ih =>
        have hopen : ¬ (s.bindName name v).Open := hs
        rw [itemRounds_of_present (hl s) (hitems v List.mem_cons_self),
          Run.bind_done (hbody _ hopen)]
        exact ih (fun w hw => hitems w (List.mem_cons_of_mem v hw)) hopen

theorem itemRounds_rebindsOnly {opts : Options} {name : Name} {body : Run Unit}
    (hbody : body.Idle) {items : List Value} {s t : State} (hs : ¬ s.Open)
    (h : (itemRounds opts name body items s).state? = some t) : s.RebindsOnly (· = name) t := by
  obtain ⟨u, hu, hrun | ⟨⟨k, hrun⟩, _⟩⟩ := itemRounds_of_not_open opts name hbody items hs
  · rw [hrun] at h
    cases h
    exact hu
  · rw [hrun] at h
    cases h
    exact hu

end Eval

end TagScript
