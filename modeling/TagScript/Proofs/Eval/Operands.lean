import TagScript.Proofs.Eval.Level

set_option autoImplicit false

/-! # Operands

The operands of an instruction are evaluated from left to right, and each of them has to give a
value. The operation that needs the values is named where one is lacking, and matters nowhere else
(`sameValues`). -/

namespace TagScript.Eval

/-! ## The operation that needs the values -/

/-- Operands that two operations need give both the same values, or halt in the same way, but for
    the name of the operation that lacks a value. -/
inductive SameValues (op op' : String) :
    Outcome State (List Value) → Outcome State (List Value) → Prop where
  | done (vs : List Value) (t : State) : SameValues op op' (.done vs t) (.done vs t)
  | halted (h : Halt) (t : State) : SameValues op op' (.halted h t) (.halted h t)
  | noValue (t : State) :
      SameValues op op' (.halted (.refused op .noValue) t) (.halted (.refused op' .noValue) t)
  | outOfFuel : SameValues op op' .outOfFuel .outOfFuel

theorem SameValues.cons {op op' : String} {m m' : Run (List Value)} {s : State}
    (h : SameValues op op' (m s) (m' s)) (v : Value) :
    SameValues op op' ((m >>= fun vs => pure (v :: vs)) s)
      ((m' >>= fun vs => pure (v :: vs)) s) := by
  rw [Run.bind_apply, Run.bind_apply]
  generalize m s = o, m' s = o' at h
  cases h with
  | done vs t => exact .done (v :: vs) t
  | halted h t => exact .halted h t
  | noValue t => exact .noValue t
  | outOfFuel => exact .outOfFuel

theorem sameValues (ev : Instr → Run (Option Value)) (op op' : String) (is : List Instr)
    (s : State) : SameValues op op' (values ev op is s) (values ev op' is s) := by
  induction is generalizing s with
  | nil => exact .done [] s
  | cons i rest ih =>
      unfold values required
      simp only [bind_assoc]
      cases hi : ev i s with
      | outOfFuel =>
          rw [Run.bind_outOfFuel hi, Run.bind_outOfFuel hi]
          exact .outOfFuel
      | halted h t =>
          rw [Run.bind_halted hi, Run.bind_halted hi]
          exact .halted h t
      | done v? t =>
          rw [Run.bind_done hi, Run.bind_done hi]
          cases v? with
          | none => exact .noValue t
          | some v => exact (ih t).cons v

/-! ## Operands that give values -/

variable {ev : Instr → Run (Option Value)} {s t : State}

/-- The operation that needs the values matters only where one is lacking. -/
theorem values_of_values {op : String} (op' : String) {is : List Instr} {vs : List Value}
    (h : values ev op is s = .done vs t) : values ev op' is s = .done vs t := by
  have hsame := sameValues ev op op' is s
  rw [h] at hsame
  generalize values ev op' is s = o at hsame
  cases hsame
  rfl

theorem length_of_values {op : String} {is : List Instr} {vs : List Value}
    (h : values ev op is s = .done vs t) : vs.length = is.length := by
  induction is generalizing s vs with
  | nil =>
      cases h
      rfl
  | cons i rest ih =>
      obtain ⟨v, u, hv, h⟩ := Run.bind_eq_done h
      obtain ⟨ws, w, hws, h⟩ := Run.bind_eq_done h
      cases h
      exact congrArg (· + 1) (ih hws)

theorem values_of_required {op : String} (op' : String) {i e : Instr} {v : Value}
    (hop : i.operands.head? = some e) (h : required ev op e s = .done v t) :
    values ev op' (i.operands.take 1) s = .done [v] t := by
  have htake : i.operands.take 1 = [e] := by
    cases hi : i.operands with
    | nil =>
        rw [hi] at hop
        cases hop
    | cons e' rest =>
        rw [hi] at hop
        cases hop
        rfl
  have hone : values ev op [e] s = .done [v] t := Run.bind_done h
  rw [htake]
  exact values_of_values op' hone

theorem values_append {op : String} {is js : List Instr} {vs ws : List Value} {u : State}
    (h : values ev op is s = .done vs u) (hj : values ev op js u = .done ws t) :
    values ev op (is ++ js) s = .done (vs ++ ws) t := by
  induction is generalizing s vs with
  | nil =>
      cases h
      exact hj
  | cons i rest ih =>
      obtain ⟨v, x, hv, hrest⟩ := Run.bind_eq_done h
      obtain ⟨vs', y, hvs, hend⟩ := Run.bind_eq_done hrest
      cases hend
      rw [List.cons_append]
      unfold values
      rw [Run.bind_done hv, Run.bind_done (ih hvs)]
      rfl

/-- Each of the operands gave a value, from the state that the ones before it left. -/
theorem values_getElem {op op' : String} {is : List Instr} {vs ws : List Value} {u : State}
    {k : Nat} {e : Instr} (h : values ev op is s = .done vs t) (hk : is[k]? = some e)
    (hu : values ev op' (is.take k) s = .done ws u) : ∃ v w, ev e u = .done (some v) w := by
  induction is generalizing s t vs ws k with
  | nil => cases hk
  | cons i rest ih =>
      obtain ⟨v, x, hv, hrest⟩ := Run.bind_eq_done h
      obtain ⟨_, y, hy, _⟩ := Run.bind_eq_done hrest
      cases k with
      | zero =>
          cases hk
          cases hu
          exact ⟨v, x, required_eq_done hv⟩
      | succ k =>
          obtain ⟨v', x', hv', hrest'⟩ := Run.bind_eq_done hu
          obtain ⟨_, y', hy', hend⟩ := Run.bind_eq_done hrest'
          cases (required_eq_done hv).symm.trans (required_eq_done hv')
          cases hend
          exact ih hy hk hy'

end TagScript.Eval
