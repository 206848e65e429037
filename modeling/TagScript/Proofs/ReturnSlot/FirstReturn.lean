import TagScript.Proofs.Eval.Operands
import TagScript.Proofs.ReturnSlot.Basic

set_option autoImplicit false

/-! # The first return of a frame

The instructions that a block comes to evaluate in its own frame are those of the block itself,
their operands, and those of the blocks inside its conditions and loops (`Eval.Reaches`). A return
among them completes if the slot is empty where it starts and its operand gives a value; as it fills
the slot, it is the first one to do so. A block that is done has filled the slot exactly if a return
completed, and then with the value of that return (`Eval.block_returned_iff`). -/

namespace TagScript.Eval

/-! ## What a block comes to evaluate -/

/-- The second state is reached from the first by some rounds of a loop on a condition. -/
inductive AfterRounds (test : Run Bool) (body : Run Unit) : State → State → Prop where
  | zero (s : State) : AfterRounds test body s s
  | succ {s t u w : State} : s.Open → test s = .done true t → body t = .done () u →
      AfterRounds test body u w → AfterRounds test body s w

/-- The test of a loop on a condition. -/
def whileTest (ev : Instr → Run (Option Value)) (e : Instr) : Run Bool :=
  required ev "while" e >>= truth

/-- The operands of an instruction that are evaluated once, in that order. -/
def asked (i : Instr) : List Instr :=
  match i.kind with
  | .value | .integer | .real | .text | .whileLoop | .unknown _ => []
  | .assign | .integerCast | .realCast | .textCast | .not | .giveBack | .ifThen | .ifElse
  | .eachLoop => i.operands.take 1
  | .call => i.operands.drop 1 ++ i.operands.take 1
  | _ => i.operands

/-- To perform the instruction from the state `s` comes to the evaluation of one of its operands
    from another state. -/
inductive Asks (opts : Options) (outer : List Frame) (fuel : Nat) (i : Instr) (s : State) :
    Instr → State → Prop where
  | operand {op : String} {e : Instr} {k : Nat} {vs : List Value} {t : State} :
      values (eval opts fuel outer) op ((asked i).take k) s = .done vs t →
      (asked i)[k]? = some e → Asks opts outer fuel i s e t
  | whileTest {e : Instr} {t : State} :
      i.kind = .whileLoop → i.operands.head? = some e →
      AfterRounds (whileTest (eval opts fuel outer) e) (block (eval opts fuel outer) i.body) s t →
      t.Open → Asks opts outer fuel i s e t

/-- To perform the instruction from the state `s` comes to running a block of it, in its own frame,
    from another state. -/
inductive Enters (opts : Options) (outer : List Frame) (fuel : Nat) (i : Instr) (s : State) :
    List Instr → State → Prop where
  | branch {e : Instr} {v : Value} {t : State} {holds : Bool} :
      i.kind = .ifThen ∨ i.kind = .ifElse → i.operands.head? = some e →
      eval opts fuel outer e s = .done (some v) t → v.isTruthy t.store.heap = .ok holds →
      Enters opts outer fuel i s (if holds then i.body else i.orelse) t
  | countRound {first last step : Int} {k : Nat} {t u : State} :
      i.kind = .countLoop →
      values (eval opts fuel outer) "for" i.operands s
        = .done [.int first, .int last, .int step] t →
      0 < step → k < roundCount first last step →
      countRounds opts i.value step (block (eval opts fuel outer) i.body) k first t
        = .done () u →
      u.Open → Value.Fits (first + k * step) →
      Enters opts outer fuel i s i.body (u.bindName i.value (.int (first + k * step)))
  | itemRound {e : Instr} {id k : Nat} {v : Value} {t u : State} :
      i.kind = .eachLoop → i.operands.head? = some e →
      eval opts fuel outer e s = .done (some (.list id)) t →
      (t.store.heap.items id).toList[k]? = some v →
      itemRounds opts i.value (block (eval opts fuel outer) i.body)
        ((t.store.heap.items id).toList.take k) (t.lock id) = .done () u →
      u.Open → v ≠ .absent →
      Enters opts outer fuel i s i.body (u.bindName i.value v)
  | whileRound {e : Instr} {t u : State} :
      i.kind = .whileLoop → i.operands.head? = some e →
      AfterRounds (whileTest (eval opts fuel outer) e) (block (eval opts fuel outer) i.body) s t →
      t.Open → whileTest (eval opts fuel outer) e t = .done true u →
      Enters opts outer fuel i s i.body u

/-- Running the block from the state `s` comes to the evaluation of an instruction, in the frame of
    the block, from another state; the fuel goes down with each instruction that is entered. -/
inductive Reaches (opts : Options) (outer : List Frame) :
    (fuel : Nat) → List Instr → State → (left : Nat) → Instr → State → Prop where
  | here {fuel : Nat} {i : Instr} {rest : List Instr} {s : State} :
      Reaches opts outer fuel (i :: rest) s fuel i s
  | next {fuel left : Nat} {i j : Instr} {rest : List Instr} {s t u : State} {r : Option Value} :
      eval opts fuel outer i s = .done r t → Reaches opts outer fuel rest t left j u →
      Reaches opts outer fuel (i :: rest) s left j u
  | operand {fuel left : Nat} {i j e : Instr} {rest : List Instr} {s t u : State} :
      s.Open → Asks opts outer fuel i (s.traced opts i) e t →
      Reaches opts outer fuel [e] t left j u → Reaches opts outer (fuel + 1) (i :: rest) s left j u
  | inside {fuel left : Nat} {i j : Instr} {rest b : List Instr} {s t u : State} :
      s.Open → Enters opts outer fuel i (s.traced opts i) b t →
      Reaches opts outer fuel b t left j u → Reaches opts outer (fuel + 1) (i :: rest) s left j u

/-- Running the block from the state `s` comes to a return of its frame that completes with the
    value `v`: the slot is empty where the return starts, and its operand gives the value. -/
def Returns (opts : Options) (outer : List Frame) (fuel : Nat) (b : List Instr) (s : State)
    (v : Value) : Prop :=
  ∃ left i u e w, Reaches opts outer fuel b s (left + 1) i u ∧ u.Open ∧ i.kind = .giveBack ∧
    i.operands.head? = some e ∧ eval opts left outer e (u.traced opts i) = .done (some v) w

/-! ## Operands give values -/

/-- An instruction that is done had the values of the operands that it asks for once. -/
theorem perform_asked {opts : Options} {ev : Evaluator} {fuel : Nat} {outer : List Frame}
    {i : Instr} {s t : State} {r : Option Value} (h : perform opts ev fuel outer i s = .done r t) :
    ∃ vs u, values (ev outer) "" (asked i) s = .done vs u := by
  unfold asked
  cases hk : i.kind with
  | value | integer | real | text | whileLoop | unknown => exact ⟨[], s, rfl⟩
  | assign | integerCast | realCast | textCast | not | giveBack | ifThen | ifElse | eachLoop =>
      simp only [perform, hk] at h
      obtain ⟨e, hop, hrest⟩ := firstOperand_bind_eq_done h
      obtain ⟨v, u, hv, _⟩ := Run.bind_eq_done hrest
      exact ⟨_, _, values_of_required "" hop hv⟩
  | call =>
      simp only [perform, hk] at h
      unfold call at h
      cases hops : i.operands with
      | nil =>
          rw [hops] at h
          cases h
      | cons callee args =>
          rw [hops] at h
          obtain ⟨vs, u, hvs, hrest⟩ := Run.bind_eq_done h
          obtain ⟨f, w, hf, _⟩ := Run.bind_eq_done hrest
          have hcallee : values (ev outer) "call" [callee] u = .done [f] w := Run.bind_done hf
          exact ⟨vs ++ [f], w, values_of_values "" (values_append hvs hcallee)⟩
  | _ =>
      simp only [perform, hk] at h
      obtain ⟨vs, u, hvs, _⟩ := Run.bind_eq_done h
      exact ⟨vs, u, values_of_values "" hvs⟩

/-! ## The round that fills the slot -/

section Rounds

variable {opts : Options} {name : Name} {body : Run Unit} {s t : State}

theorem countRounds_fills {step : Int} (hbody : body.IdleOnceFilled) {rounds : Nat} {first : Int}
    (hs : s.Open) (ht : ¬ t.Open)
    (h : countRounds opts name step body rounds first s = .done () t) :
    ∃ k < rounds, ∃ u w, countRounds opts name step body k first s = .done () u ∧ u.Open ∧
      Value.Fits (first + k * step) ∧
      body (u.bindName name (.int (first + k * step))) = .done () w ∧
      w.frame.returned = t.frame.returned := by
  induction rounds generalizing first s with
  | zero =>
      cases h
      exact absurd hs ht
  | succ rounds ih =>
      have hl : ¬ Leaves opts s := not_leaves_of_open hs
      by_cases hfit : Value.Fits first
      · rw [countRounds_of_fits hl hfit] at h
        obtain ⟨_, w, hw, h⟩ := Run.bind_eq_done h
        by_cases hwo : w.Open
        · obtain ⟨k, hk, u, x, hu, huo, hfit', hx, hr⟩ := ih hwo h
          have hnext : first + ((k + 1 : Nat) : Int) * step = first + step + k * step := by
            rw [Int.natCast_succ, Int.add_mul, Int.one_mul]
            omega
          refine ⟨k + 1, by omega, u, x, ?_, huo, ?_, ?_, hr⟩
          · rw [countRounds_of_fits hl hfit, Run.bind_done hw]
            exact hu
          · rw [hnext]
            exact hfit'
          · rw [hnext]
            exact hx
        · -- this round fills the slot, and the rounds that are left do not touch it
          have hzero : first + ((0 : Nat) : Int) * step = first := by simp
          have hidle := hbody (s.bindName _ _) w hs hwo hw
          have hkeep := countRounds_rebindsOnly hidle hwo (by rw [h]; rfl)
          refine ⟨0, by omega, s, w, rfl, hs, by rw [hzero]; exact hfit, ?_, hkeep.returned.symm⟩
          rw [hzero]
          exact hw
      · rw [countRounds_of_not_fits hl hfit] at h
        cases h

theorem itemRounds_fills (hbody : body.IdleOnceFilled) {items : List Value} (hs : s.Open)
    (ht : ¬ t.Open) (h : itemRounds opts name body items s = .done () t) :
    ∃ k v u w, items[k]? = some v ∧ itemRounds opts name body (items.take k) s = .done () u ∧
      u.Open ∧ v ≠ .absent ∧ body (u.bindName name v) = .done () w ∧
      w.frame.returned = t.frame.returned := by
  induction items generalizing s with
  | nil =>
      cases h
      exact absurd hs ht
  | cons v rest ih =>
      have hl : ¬ Leaves opts s := not_leaves_of_open hs
      by_cases hv : v = .absent
      · subst hv
        rw [itemRounds_of_absent hl] at h
        cases h
      · rw [itemRounds_of_present hl hv] at h
        obtain ⟨_, w, hw, h⟩ := Run.bind_eq_done h
        by_cases hwo : w.Open
        · obtain ⟨k, v', u, x, hk, hu, huo, hv', hx, hr⟩ := ih hwo h
          refine ⟨k + 1, v', u, x, hk, ?_, huo, hv', hx, hr⟩
          rw [List.take_succ_cons, itemRounds_of_present hl hv, Run.bind_done hw]
          exact hu
        · -- this round fills the slot, and the rounds that are left do not touch it
          have hidle := hbody (s.bindName _ _) w hs hwo hw
          have hkeep := itemRounds_rebindsOnly hidle hwo (by rw [h]; rfl)
          exact ⟨0, v, s, w, rfl, rfl, hs, hv, hw, hkeep.returned.symm⟩

theorem whileRounds_fills {test : Run Bool} (htest : test.KeepsOpen) {fuel : Nat} (hs : s.Open)
    (ht : ¬ t.Open) (h : whileRounds test body fuel s = .done () t) :
    ∃ u w, AfterRounds test body s u ∧ u.Open ∧ test u = .done true w ∧ body w = .done () t := by
  induction fuel generalizing s with
  | zero => cases h
  | succ fuel ih =>
      rw [whileRounds_of_open hs] at h
      obtain ⟨holds, w, hw, h⟩ := Run.bind_eq_done h
      cases holds with
      | false =>
          cases h
          exact absurd (htest s false t hs hw) ht
      | true =>
          obtain ⟨_, x, hx, h⟩ := Run.bind_eq_done h
          by_cases hxo : x.Open
          · obtain ⟨u, y, hu, huo, hy, hb⟩ := ih hxo h
            exact ⟨u, y, .succ hs hw hx hu, huo, hy, hb⟩
          · -- this round fills the slot, and then the loop ends
            cases fuel with
            | zero => cases h
            | succ fuel =>
                rw [whileRounds_of_not_open hxo] at h
                cases h
                exact ⟨s, w, .zero s, hs, hw, hx⟩

end Rounds

/-! ## From a filled slot to the return that filled it -/

section Sound

variable {opts : Options} {outer : List Frame} {fuel : Nat} {i : Instr} {s t : State}
  {r : Option Value} {v : Value}

/-- The instruction runs a block that fills the slot with the value `v`. -/
def FillsInside (opts : Options) (outer : List Frame) (fuel : Nat) (i : Instr) (s : State)
    (v : Value) : Prop :=
  ∃ b u w, Enters opts outer fuel i s b u ∧ block (eval opts fuel outer) b u = .done () w ∧
    w.frame.returned = some v

/-- A condition that fills the slot does so in one of its branches. -/
theorem condition_fills (hk : i.kind = .ifThen ∨ i.kind = .ifElse)
    (h : condition (eval opts fuel outer) i s = .done r t) (hv : t.frame.returned = some v) :
    FillsInside opts outer fuel i s v := by
  obtain ⟨e, hop, hrest⟩ := firstOperand_bind_eq_done h
  obtain ⟨c, u, hc, hrest⟩ := Run.bind_eq_done hrest
  obtain ⟨holds, hholds, hrest⟩ := truth_bind_eq_done hrest
  obtain ⟨_, w, hw, hend⟩ := Run.bind_eq_done hrest
  cases hend
  exact ⟨_, u, t, .branch hk hop (required_eq_done hc) hholds, hw, hv⟩

/-- A loop over a range that fills the slot does so in one of its rounds. -/
theorem countLoop_fills (hs : s.Open) (hk : i.kind = .countLoop)
    (h : countLoop opts (eval opts fuel outer) i s = .done r t) (hv : t.frame.returned = some v) :
    FillsInside opts outer fuel i s v := by
  have ht : ¬ t.Open := State.not_open_iff.2 ⟨v, hv⟩
  obtain ⟨vs, u, hvs, h⟩ := Run.bind_eq_done h
  have hu : u.Open := values_keeps (eval_openOnValue opts fuel outer) _ _ s vs u hs hvs
  split at h
  · rename_i first last step
    split at h
    · cases h
    · rename_i hstep
      obtain ⟨_, w, hw, h⟩ := Run.bind_eq_done h
      cases h
      obtain ⟨k, hk', x, y, hx, hxo, hfit, hy, hr⟩ :=
        countRounds_fills (block_idleOnceFilled opts fuel outer i.body) hu ht hw
      exact ⟨_, _, y, .countRound hk hvs (by omega) hk' hx hxo hfit, hy, hr.trans hv⟩
  · cases h
    exact absurd hu ht
  · cases h

/-- A loop over a list that fills the slot does so in one of its rounds. -/
theorem eachLoop_fills (hs : s.Open) (hk : i.kind = .eachLoop)
    (h : eachLoop opts (eval opts fuel outer) i s = .done r t) (hv : t.frame.returned = some v) :
    FillsInside opts outer fuel i s v := by
  obtain ⟨e, id, u, x, hop, hc, hrounds, rfl⟩ := eachLoop_eq_done h
  have hu : (u.lock id).Open := eval_openOnValue opts fuel outer e s _ u hs hc
  have hx : ¬ x.Open := State.not_open_iff.2 ⟨v, hv⟩
  obtain ⟨k, c, y, z, hget, hy, hyo, hne, hz, hr⟩ :=
    itemRounds_fills (block_idleOnceFilled opts fuel outer i.body) hu hx hrounds
  exact ⟨_, _, z, .itemRound hk hop hc hget hy hyo hne, hz, hr.trans hv⟩

/-- A loop on a condition that fills the slot does so in one of its rounds. -/
theorem whileLoop_fills {rounds : Nat} (hs : s.Open) (hk : i.kind = .whileLoop)
    (h : whileLoop (eval opts fuel outer) rounds i s = .done r t)
    (hv : t.frame.returned = some v) :
    FillsInside opts outer fuel i s v := by
  obtain ⟨e, hop, hrest⟩ := firstOperand_bind_eq_done h
  obtain ⟨_, w, hw, hend⟩ := Run.bind_eq_done hrest
  cases hend
  have htest : (whileTest (eval opts fuel outer) e).KeepsOpen :=
    .bind (required_keeps (eval_openOnValue opts fuel outer) _ _) fun v =>
      (truth_keepsFrame v).keeps
  obtain ⟨x, y, hx, hxo, hy, hb⟩ :=
    whileRounds_fills htest hs (State.not_open_iff.2 ⟨v, hv⟩) hw
  exact ⟨_, y, _, .whileRound hk hop hx hxo hy, hb, hv⟩

/-- An instruction that fills the slot is a return, or it does so in one of its blocks. -/
theorem perform_fills (hs : s.Open)
    (h : perform opts (eval opts fuel) fuel outer i s = .done r t)
    (hv : t.frame.returned = some v) :
    (i.kind = .giveBack ∧ ∃ e w, i.operands.head? = some e ∧
      eval opts fuel outer e s = .done (some v) w) ∨
    FillsInside opts outer fuel i s v := by
  cases hm : i.kind.mayReturn with
  | false =>
      have ht := perform_keepsOpen (eval_openOnValue opts fuel) opts fuel outer hm s r t hs h
      rw [show t.frame.returned = none from ht] at hv
      cases hv
  | true =>
      cases hk : i.kind with
      | giveBack =>
          simp only [perform, hk] at h
          obtain ⟨e, hop, hrest⟩ := firstOperand_bind_eq_done h
          obtain ⟨c, u, hc, hrest⟩ := Run.bind_eq_done hrest
          cases hrest
          cases hv
          exact .inl ⟨rfl, e, u, hop, required_eq_done hc⟩
      | ifThen =>
          simp only [perform, hk] at h
          exact .inr (condition_fills (.inl hk) h hv)
      | ifElse =>
          simp only [perform, hk] at h
          exact .inr (condition_fills (.inr hk) h hv)
      | countLoop =>
          simp only [perform, hk] at h
          exact .inr (countLoop_fills hs hk h hv)
      | eachLoop =>
          simp only [perform, hk] at h
          exact .inr (eachLoop_fills hs hk h hv)
      | whileLoop =>
          simp only [perform, hk] at h
          exact .inr (whileLoop_fills hs hk h hv)
      | _ =>
          rw [hk] at hm
          cases hm

/-- The blocks of an instruction are entered in a frame that is open. -/
theorem Enters.open_state {b : List Instr} {u : State} (h : Enters opts outer fuel i s b u)
    (hs : s.Open) : u.Open := by
  have hev := eval_openOnValue opts fuel outer
  cases h with
  | branch _ _ he _ => exact hev _ _ _ _ hs he
  | countRound _ _ _ _ _ hu _ => exact hu
  | itemRound _ _ _ _ _ hu _ => exact hu
  | whileRound _ _ _ ht htest =>
      exact Run.Keeps.bind (required_keeps hev _ _) (fun v => (truth_keepsFrame v).keeps) _ _ _ ht
        htest

/-- A block that is done and has filled the slot came to a return that completed. -/
theorem returns_of_block {b : List Instr} (hs : s.Open)
    (h : block (eval opts fuel outer) b s = .done () t) (hv : t.frame.returned = some v) :
    Returns opts outer fuel b s v := by
  -- the fuel goes down where a block is entered, the list where the next instruction is taken
  induction fuel generalizing b s t with
  | zero =>
      cases b with
      | nil =>
          cases h
          exact absurd hs (State.not_open_iff.2 ⟨v, hv⟩)
      | cons i rest => cases h
  | succ fuel ih =>
      induction b generalizing s with
      | nil =>
          cases h
          exact absurd hs (State.not_open_iff.2 ⟨v, hv⟩)
      | cons i rest ihb =>
          obtain ⟨r, u, hu, hrest⟩ := Run.bind_eq_done h
          by_cases huo : u.Open
          · obtain ⟨left, j, x, e, w, hreach, hret⟩ := ihb huo hrest
            exact ⟨left, j, x, e, w, .next hu hreach, hret⟩
          · -- the slot is filled, so the rest of the block does nothing
            have hut : u = t := by
              rw [block_of_not_open opts fuel outer rest huo] at hrest
              cases hrest
              rfl
            subst hut
            rcases perform_fills (hs.traced opts i) (perform_of_eval hs hu) hv with
              ⟨hk, e, w, hop, he⟩ | ⟨c, x, y, henter, hy, hyv⟩
            · exact ⟨fuel, i, s, e, w, .here, hs, hk, hop, he⟩
            · obtain ⟨left, j, z, e, w, hreach, hret⟩ :=
                ih (henter.open_state (hs.traced opts i)) hy hyv
              exact ⟨left, j, z, e, w, .inside hs henter hreach, hret⟩

end Sound

/-! ## From a return to the slot that it fills -/

section Complete

variable {opts : Options} {outer : List Frame} {fuel : Nat} {i : Instr} {s t : State}

theorem AfterRounds.whileRounds {test : Run Bool} {body : Run Unit} {u : State}
    (hr : AfterRounds test body s u) {rounds : Nat}
    (h : Eval.whileRounds test body rounds s = .done () t) :
    ∃ left, Eval.whileRounds test body left u = .done () t := by
  induction hr generalizing rounds with
  | zero s => exact ⟨rounds, h⟩
  | succ hs htest hbody _ ih =>
      cases rounds with
      | zero => cases h
      | succ rounds =>
          rw [whileRounds_of_open hs, Run.bind_done htest, if_pos rfl, Run.bind_done hbody] at h
          exact ih h

/-- When an instruction is done, the blocks it came to run were done too, and a slot that one of
    them filled is still filled. -/
theorem Enters.block_done {b : List Instr} {u : State} {r : Option Value}
    (henter : Enters opts outer fuel i s b u)
    (h : perform opts (eval opts fuel) fuel outer i s = .done r t) :
    ∃ w, block (eval opts fuel outer) b u = .done () w ∧
      ∀ v, w.frame.returned = some v → t.frame.returned = some v := by
  cases henter with
  | branch hk hop he hholds =>
      have hcond : condition (eval opts fuel outer) i s = .done r t := by
        rcases hk with hk | hk <;> simpa only [perform, hk] using h
      obtain ⟨e', hop', hrest⟩ := firstOperand_bind_eq_done hcond
      cases hop.symm.trans hop'
      obtain ⟨c, u', hc, hrest⟩ := Run.bind_eq_done hrest
      cases he.symm.trans (required_eq_done hc)
      obtain ⟨holds', hholds', hrest⟩ := truth_bind_eq_done hrest
      cases hholds.symm.trans hholds'
      obtain ⟨_, w, hw, hend⟩ := Run.bind_eq_done hrest
      cases hend
      exact ⟨t, hw, fun v hv => hv⟩
  | @countRound first last step k t' u hk hvs hstep hlt hrounds hu hfit =>
      simp only [perform, hk] at h
      obtain ⟨vs, t'', hvs', hrest⟩ := Run.bind_eq_done h
      cases hvs.symm.trans hvs'
      simp only [if_neg (Int.not_le.2 hstep)] at hrest
      obtain ⟨_, w, hw, hend⟩ := Run.bind_eq_done hrest
      cases hend
      -- the rounds before this one, this one, and the rounds after it
      obtain ⟨more, hmore⟩ : ∃ more, roundCount first last step = k + (more + 1) :=
        ⟨roundCount first last step - k - 1, by omega⟩
      rw [hmore, countRounds_add, Run.bind_done hrounds,
        countRounds_of_fits (not_leaves_of_open hu) hfit] at hw
      obtain ⟨_, x, hx, hw⟩ := Run.bind_eq_done hw
      refine ⟨x, hx, fun v hv => ?_⟩
      have hxo : ¬ x.Open := State.not_open_iff.2 ⟨v, hv⟩
      have hidle := block_idleOnceFilled opts fuel outer i.body (u.bindName _ _) x hu hxo hx
      rw [(countRounds_rebindsOnly hidle hxo (by rw [hw]; rfl)).returned]
      exact hv
  | @itemRound e id k c t' u hk hop he hget hrounds hu hne =>
      simp only [perform, hk] at h
      obtain ⟨e', id', t'', y, hop', he', hy, rfl⟩ := eachLoop_eq_done h
      cases hop.symm.trans hop'
      cases he.symm.trans he'
      have hsplit : (t'.store.heap.items id).toList
          = (t'.store.heap.items id).toList.take k ++ c ::
              (t'.store.heap.items id).toList.drop (k + 1) := by
        rw [List.getElem?_eq_some_iff] at hget
        obtain ⟨hlt, rfl⟩ := hget
        rw [List.getElem_cons_drop, List.take_append_drop]
      rw [hsplit, itemRounds_append, Run.bind_done hrounds,
        itemRounds_of_present (not_leaves_of_open hu) hne] at hy
      obtain ⟨_, x, hx, hy⟩ := Run.bind_eq_done hy
      refine ⟨x, hx, fun v hv => ?_⟩
      have hxo : ¬ x.Open := State.not_open_iff.2 ⟨v, hv⟩
      have hidle := block_idleOnceFilled opts fuel outer i.body (u.bindName _ _) x hu hxo hx
      show y.frame.returned = some v
      rw [(itemRounds_rebindsOnly hidle hxo (by rw [hy]; rfl)).returned]
      exact hv
  | @whileRound e t' u hk hop hafter ht htest =>
      simp only [perform, hk] at h
      obtain ⟨e', hop', hrest⟩ := firstOperand_bind_eq_done h
      cases hop.symm.trans hop'
      obtain ⟨_, w, hw, hend⟩ := Run.bind_eq_done hrest
      cases hend
      obtain ⟨left, hleft⟩ := hafter.whileRounds hw
      cases left with
      | zero => cases hleft
      | succ left =>
          rw [whileRounds_of_open ht, Run.bind_done htest, if_pos rfl] at hleft
          obtain ⟨_, x, hx, hleft⟩ := Run.bind_eq_done hleft
          refine ⟨x, hx, fun v hv => ?_⟩
          cases left with
          | zero => cases hleft
          | succ left =>
              rw [whileRounds_of_not_open (State.not_open_iff.2 ⟨v, hv⟩)] at hleft
              cases hleft
              exact hv

theorem Asks.open_state {e : Instr} {u : State} (h : Asks opts outer fuel i s e u) (hs : s.Open) :
    u.Open := by
  cases h with
  | operand hvs _ => exact values_keeps (eval_openOnValue opts fuel outer) _ _ s _ u hs hvs
  | whileTest _ _ _ hu => exact hu

/-- When an instruction is done, its operands gave values: the slot was empty after each of them. -/
theorem Asks.gives_value {e : Instr} {u : State} {r : Option Value}
    (hasks : Asks opts outer fuel i s e u)
    (h : perform opts (eval opts fuel) fuel outer i s = .done r t) :
    ∃ v w, eval opts fuel outer e u = .done (some v) w := by
  cases hasks with
  | operand hvs hget =>
      obtain ⟨vs, x, hall⟩ := perform_asked h
      exact values_getElem hall hget hvs
  | whileTest hk hop hafter hu =>
      simp only [perform, hk] at h
      obtain ⟨e', hop', hrest⟩ := firstOperand_bind_eq_done h
      cases hop.symm.trans hop'
      obtain ⟨_, w, hw, _⟩ := Run.bind_eq_done hrest
      obtain ⟨left, hleft⟩ := hafter.whileRounds hw
      cases left with
      | zero => cases hleft
      | succ left =>
          rw [whileRounds_of_open hu] at hleft
          obtain ⟨holds, x, hx, _⟩ := Run.bind_eq_done hleft
          obtain ⟨v, y, hv, _⟩ := Run.bind_eq_done hx
          exact ⟨v, y, required_eq_done hv⟩

/-- A block that is done and came to a return that completed has filled the slot with its value. -/
theorem returned_of_reaches {b : List Instr} {left : Nat} {j e : Instr} {u w : State} {v : Value}
    (hreach : Reaches opts outer fuel b s (left + 1) j u) (hu : u.Open) (hk : j.kind = .giveBack)
    (hop : j.operands.head? = some e)
    (he : eval opts left outer e (u.traced opts j) = .done (some v) w)
    (h : block (eval opts fuel outer) b s = .done () t) : t.frame.returned = some v := by
  generalize hn : left + 1 = n at hreach
  induction hreach generalizing t with
  | @here fuel i rest s =>
      -- the return fills the slot, and the rest of the block leaves it so
      subst hn
      obtain ⟨r, x, hx, hrest⟩ := Run.bind_eq_done h
      have hgive := perform_of_eval hu hx
      simp only [perform, hk] at hgive
      obtain ⟨e', hop', hreq⟩ := firstOperand_bind_eq_done hgive
      cases hop.symm.trans hop'
      obtain ⟨c, y, hc, hend⟩ := Run.bind_eq_done hreq
      cases he.symm.trans (required_eq_done hc)
      cases hend
      rw [block_of_not_open opts left outer rest (State.not_open_iff.2 ⟨v, rfl⟩)] at hrest
      cases hrest
      rfl
  | next hi _ ih =>
      obtain ⟨r, x, hx, hrest⟩ := Run.bind_eq_done h
      cases hi.symm.trans hx
      exact ih hu hk hop he hrest hn
  | @operand fuel _ i _ e' rest s t' _ hs hasks _ ih =>
      -- an operand gave a value, so no return can have completed in it
      obtain ⟨r, x, hx, _⟩ := Run.bind_eq_done h
      obtain ⟨c, y, hy⟩ := hasks.gives_value (perform_of_eval hs hx)
      have hopen := eval_openOnValue opts fuel outer e' t' c y
        (hasks.open_state (hs.traced opts i)) hy
      have hblock : block (eval opts fuel outer) [e'] t' = .done () y := Run.bind_done hy
      have hfilled := ih hu hk hop he hblock hn
      rw [show y.frame.returned = none from hopen] at hfilled
      cases hfilled
  | @inside fuel _ i _ rest _ s t' _ hs henter _ ih =>
      obtain ⟨r, x, hx, hrest⟩ := Run.bind_eq_done h
      obtain ⟨y, hy, hfilled⟩ := henter.block_done (perform_of_eval hs hx)
      have hxv := hfilled v (ih hu hk hop he hy hn)
      rw [block_of_not_open opts fuel outer rest (State.not_open_iff.2 ⟨v, hxv⟩)] at hrest
      cases hrest
      exact hxv

end Complete

/-- A block that is done has filled the slot exactly if a return completed, with its value. -/
theorem block_returned_iff {opts : Options} {outer : List Frame} {fuel : Nat} {b : List Instr}
    {s t : State} (hs : s.Open) (h : block (eval opts fuel outer) b s = .done () t) (v : Value) :
    t.frame.returned = some v ↔ Returns opts outer fuel b s v := by
  constructor
  · exact returns_of_block hs h
  · rintro ⟨left, i, u, e, w, hreach, hu, hk, hop, he⟩
    exact returned_of_reaches hreach hu hk hop he h

/-- A call that is done gives what its body left in the slot of a fresh frame. -/
theorem callClosure_eq_done {opts : Options} {ev : Evaluator} {outer : List Frame} {scope : Scope}
    {f : Closure} {args : List Value} {s t : State} {r : Option Value}
    (h : callClosure opts ev outer scope f args s = .done r t) :
    ∃ inner u w, calleeOuter scope s.frame outer = .ok inner ∧
      Run.trace opts.debug (callLine f args scope) s = .done () u ∧
      block (ev inner) f.body
          { u with frame := Frame.ofArguments f.params args, depth := u.depth + 1 } = .done () w ∧
      r = w.frame.returned := by
  unfold callClosure at h
  split at h
  · cases h
  · rw [Run.read_bind] at h
    split at h
    · cases h
    · rw [Run.read_bind] at h
      obtain ⟨inner, hinner, htrace⟩ := Run.lift_bind_eq_done h
      obtain ⟨_, u, hu, hcall⟩ := Run.bind_eq_done htrace
      unfold Run.inFrame at hcall
      split at hcall
      · rename_i w hw
        cases hcall
        exact ⟨inner, u, w, hinner, hu, hw, rfl⟩
      · cases hcall
      · cases hcall

end TagScript.Eval

namespace TagScript

/-! ## Main result -/

/-- The discipline of the return slot. An evaluation that gives a value leaves the slot empty. A
    return writes a slot that is empty, and what is in a slot stays there. Once the slot is filled,
    the rest of a block does nothing and gives no values, a loop on a condition ends, and the other
    loops change nothing but the binding of their own variable, halting only where it cannot be
    bound. The result of a call is the value of the return that completed in its frame, if any. -/
theorem return_slot_discipline (opts : Options) (outer : List Frame) (fuel : Nat) :
    (∀ i s v t, s.Open → eval opts fuel outer i s = .done (some v) t → t.Open) ∧
    (∀ i s r t, i.kind = .giveBack → s.Open → eval opts (fuel + 1) outer i s = .done r t →
      ∃ e v u, i.operands.head? = some e ∧
        eval opts fuel outer e (s.traced opts i) = .done (some v) u ∧ u.Open ∧
        t = { u with frame := { u.frame with returned := some v } }) ∧
    (∀ i s v t, s.frame.returned = some v → (eval opts fuel outer i s).state? = some t →
      t.frame.returned = some v) ∧
    (∀ pre rest s t, s.Open → ¬ t.Open → Eval.block (eval opts fuel outer) pre s = .done () t →
      Eval.block (eval opts fuel outer) (pre ++ rest) s = .done () t ∧
      ∀ i ∈ rest, eval opts fuel outer i t = .done none t) ∧
    (∀ test body rounds s, ¬ s.Open →
      Eval.whileRounds test body (rounds + 1) s = .done () s) ∧
    (∀ name step body rounds first s, ¬ s.Open →
      ∃ t, s.RebindsOnly (· = name) t ∧
        (Eval.countRounds opts name step (Eval.block (eval opts (fuel + 1) outer) body) rounds
            first s = .done () t ∨
          (∃ h, Eval.countRounds opts name step (Eval.block (eval opts (fuel + 1) outer) body)
              rounds first s = .halted h t) ∧
            ∃ k < rounds, ¬ Value.Fits (first + k * step))) ∧
    (∀ name body items s, ¬ s.Open →
      ∃ t, s.RebindsOnly (· = name) t ∧
        (Eval.itemRounds opts name (Eval.block (eval opts (fuel + 1) outer) body) items s
            = .done () t ∨
          (∃ h, Eval.itemRounds opts name (Eval.block (eval opts (fuel + 1) outer) body) items s
              = .halted h t) ∧ .absent ∈ items)) ∧
    (∀ scope f args s r t,
      Eval.callClosure opts (eval opts fuel) outer scope f args s = .done r t →
      ∃ inner u, Eval.calleeOuter scope s.frame outer = .ok inner ∧
        Run.trace opts.debug (Eval.callLine f args scope) s = .done () u ∧
        ∀ v, r = some v ↔ Eval.Returns opts inner fuel f.body
          { u with frame := Frame.ofArguments f.params args, depth := u.depth + 1 } v) := by
  refine ⟨?_, ?_, ?_, ?_, ?_, ?_, ?_, ?_⟩
  · -- a value leaves the slot empty
    intro i s v t hs h
    exact eval_openOnValue opts fuel outer i s v t hs h
  · -- a return writes an empty slot: its operand has given a value
    intro i s r t hk hs h
    have hgive := perform_of_eval hs h
    simp only [Eval.perform, hk] at hgive
    obtain ⟨e, hop, hreq⟩ := Eval.firstOperand_bind_eq_done hgive
    obtain ⟨v, u, hv, hend⟩ := Run.bind_eq_done hreq
    have he := Eval.required_eq_done hv
    cases hend
    exact ⟨e, v, u, hop, he, eval_openOnValue opts fuel outer e _ v u (hs.traced opts i) he, rfl⟩
  · -- a filled slot stays as it is
    intro i s v t hv h
    cases fuel with
    | zero => cases h
    | succ fuel =>
        rw [eval_of_not_open opts fuel outer i (State.not_open_iff.2 ⟨v, hv⟩)] at h
        cases h
        exact hv
  · -- the rest of a block does nothing
    intro pre rest s t hs ht h
    obtain ⟨k, rfl⟩ := fuel_of_filled hs ht h
    refine ⟨?_, fun i _ => eval_of_not_open opts k outer i ht⟩
    rw [Eval.block_append, Run.bind_done h]
    exact block_of_not_open opts k outer rest ht
  · -- loops
    intro test body rounds s hs
    exact Eval.whileRounds_of_not_open hs
  · intro name step body rounds first s hs
    exact Eval.countRounds_of_not_open opts name step
      (fun _ hu => block_of_not_open opts fuel outer body hu) rounds first hs
  · intro name body items s hs
    exact Eval.itemRounds_of_not_open opts name
      (fun _ hu => block_of_not_open opts fuel outer body hu) items hs
  · -- calls: the body starts with an empty slot
    intro scope f args s r t h
    obtain ⟨inner, u, w, hinner, hu, hw, rfl⟩ := Eval.callClosure_eq_done h
    have hopen : State.Open
        { u with frame := Frame.ofArguments f.params args, depth := u.depth + 1 } :=
      Frame.returned_ofArguments f.params args
    exact ⟨inner, u, hinner, hu, Eval.block_returned_iff hopen hw⟩

/-- A function with two returns. -/
def twoReturns : Closure where
  name := "f"
  params := []
  body :=
    [.mk .giveBack none [.mk .integer (some "1") [] [] [] none] [] [] none,
     .mk .giveBack none [.mk .integer (some "2") [] [] [] none] [] [] none]

/-- The call gives the value of the first return, which is the one that completes. -/
theorem return_slot_discipline_twoReturns :
    ∃ t, Eval.callClosure {} (eval {} 3) [] .lexical twoReturns [] {} = .done (some (.int 1)) t ∧
      ∃ u : State, ∀ v, v = .int 1 ↔ Eval.Returns {} [{}] 3 twoReturns.body
        { u with frame := Frame.ofArguments [] [], depth := u.depth + 1 } v := by
  have hcall : ∃ t, Eval.callClosure {} (eval {} 3) [] .lexical twoReturns [] {}
      = .done (some (.int 1)) t := ⟨_, rfl⟩
  obtain ⟨t, ht⟩ := hcall
  obtain ⟨inner, u, hinner, _, hreturns⟩ :=
    (return_slot_discipline {} [] 3).2.2.2.2.2.2.2 .lexical twoReturns [] {} _ t ht
  cases hinner
  refine ⟨t, ht, u, fun v => ?_⟩
  have hv := hreturns v
  rw [Option.some.injEq] at hv
  exact eq_comm.trans hv

end TagScript
