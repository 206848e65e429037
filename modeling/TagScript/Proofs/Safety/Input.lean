import TagScript.Proofs.Eval.Congruence
import TagScript.Proofs.Eval.Native

set_option autoImplicit false

/-! # Input that cannot be decoded

Whether bytes that cannot be decoded come after the text of the input is settled before a run
starts: reading takes lines from the text and leaves the end as it is. So a run that is handed
decodable input never finds it undecodable (`Program.broken_of_undecodable`). -/

namespace TagScript

/-- The run leaves the end of the input as it is, and finds input undecodable only if it is. -/
structure Run.MindsInput {α : Type} (m : Run α) : Prop where
  kept : ∀ s t, (m s).state? = some t → t.store.stdin.broken = s.store.stdin.broken
  undecodable : ∀ s t, m s = .halted (.crash .undecodableInput) t → s.store.stdin.broken = true

namespace Run.MindsInput

variable {α β : Type}

/-- A run that ends in the state it started in, and halts in fresh ways alone. -/
theorem of_state_eq {m : Run α} (hstate : ∀ s t, (m s).state? = some t → t = s)
    (hfresh : ∀ s h t, m s = .halted h t → h.Fresh) : m.MindsInput where
  kept s t ht := by rw [hstate s t ht]
  undecodable s t ht := (hfresh s _ t ht).elim

theorem pure (a : α) : (Pure.pure a : Run α).MindsInput :=
  of_state_eq (fun _ _ ht => by cases ht; rfl) fun _ _ _ => nofun

theorem halt {h : Halt} (hh : h.Fresh) : (Run.halt h : Run α).MindsInput := by
  refine of_state_eq (fun _ _ ht => by cases ht; rfl) fun s k t ht => ?_
  cases ht
  exact hh

theorem modify {f : State → State}
    (hf : ∀ s, (f s).store.stdin.broken = s.store.stdin.broken) : (Run.modify f).MindsInput where
  kept := by
    rintro s t ⟨⟩
    exact hf s
  undecodable _ _ := nofun

theorem onStore {f : Store → Except Halt (α × Store)}
    (hok : ∀ s r, f s = .ok r → r.2.stdin.broken = s.stdin.broken)
    (herror : ∀ s, f s = .error (.crash .undecodableInput) → s.stdin.broken = true) :
    (Run.onStore f).MindsInput where
  kept s t ht := by
    unfold Run.onStore at ht
    split at ht
    · rename_i hr
      cases ht
      exact hok s.store _ hr
    · cases ht
      rfl
  undecodable s t ht := by
    unfold Run.onStore at ht
    split at ht
    · cases ht
    · rename_i hr
      cases ht
      exact herror s.store hr

theorem onHeap {f : Heap → Except Halt Heap} (hf : ∀ h, Freshly (f h)) :
    (Run.onHeap f).MindsInput := by
  refine onStore (fun s r hr => ?_) fun s hr => ?_
  · obtain ⟨heap, _, rfl⟩ := except_map_ok hr
    rfl
  · exact ((hf s.heap).map.fresh hr).elim

theorem bind {m : Run α} {f : α → Run β} (hm : m.MindsInput) (hf : ∀ a, (f a).MindsInput) :
    (m >>= f).MindsInput where
  kept s t ht := by
    have hs := hm.kept s
    rw [bind_apply] at ht
    cases h : m s with
    | done a u =>
        rw [h] at ht hs
        exact ((hf a).kept u t ht).trans (hs u rfl)
    | halted k u =>
        rw [h] at ht hs
        exact hs t ht
    | outOfFuel =>
        rw [h] at ht
        cases ht
  undecodable s t ht := by
    rw [bind_apply] at ht
    cases h : m s with
    | done a u =>
        rw [h] at ht
        rw [← hm.kept s u (by rw [h]; rfl)]
        exact (hf a).undecodable u t ht
    | halted k u =>
        rw [h] at ht
        cases ht
        exact hm.undecodable s t h
    | outOfFuel =>
        rw [h] at ht
        cases ht

theorem trace (debug : Bool) {line : State → Except Halt String} (hline : Eval.IsTraceLine line) :
    (Run.trace debug line).MindsInput where
  kept s t ht := by
    obtain ⟨_, rfl⟩ := trace_state ht
    rfl
  undecodable s t ht := by
    cases debug with
    | false => cases ht
    | true =>
        rw [trace_true_apply] at ht
        split at ht
        · cases ht
        · rename_i hs
          cases ht
          cases hline s _ hs

theorem located (span : Option Span) {m : Run α} (hm : m.MindsInput) :
    (Run.located span m).MindsInput where
  kept s t ht := by
    apply hm.kept s t
    unfold Run.located at ht
    cases h : m s <;> rw [h] at ht <;> exact ht
  undecodable s t ht := by
    unfold Run.located at ht
    split at ht
    · rename_i k u hk
      have hcrash : k = .crash .undecodableInput := by
        cases k with
        | crash cause => exact (Outcome.halted.inj ht).1
        | fault cause place => cases place <;> cases ht
      rw [hcrash] at hk
      exact hm.undecodable s u hk
    · exact hm.undecodable s t ht

/-- A run between two changes of the state that do not touch the input. -/
theorem wrap {m : Run α} (hm : m.MindsInput) (enter : State → State)
    (leave : State → State → State) (result : α → State → β) {W : Run β}
    (hW : ∀ s, W s = match m (enter s) with
      | .done a t => .done (result a t) (leave s t)
      | .halted h t => .halted h (leave s t)
      | .outOfFuel => .outOfFuel)
    (henter : ∀ s, (enter s).store.stdin = s.store.stdin)
    (hleave : ∀ s t, (leave s t).store.stdin = t.store.stdin) : W.MindsInput where
  kept s t ht := by
    have hin := hm.kept (enter s)
    rw [hW] at ht
    split at ht
    all_goals cases ht
    all_goals
      rename_i heq
      rw [hleave, hin _ (by rw [heq]; rfl), henter]
  undecodable s t ht := by
    rw [hW] at ht
    split at ht
    · cases ht
    · rename_i heq
      cases ht
      rw [← henter]
      exact hm.undecodable _ _ heq
    · cases ht

theorem iterating (id : Nat) {m : Run α} (hm : m.MindsInput) :
    (Run.iterating id m).MindsInput := by
  refine hm.wrap
    (fun s => { s with store := { s.store with heap := s.store.heap.beginIteration id } })
    (fun _ t => { t with store := { t.store with heap := t.store.heap.endIteration id } })
    (fun a _ => a) (fun s => ?_) (fun _ => rfl) fun _ _ => rfl
  unfold Run.iterating
  cases m _ <;> rfl

theorem inFrame (frame : Frame) {m : Run Unit} (hm : m.MindsInput) :
    (Run.inFrame frame m).MindsInput := by
  refine hm.wrap (fun s => { s with frame, depth := s.depth + 1 })
    (fun s t => { t with frame := s.frame, depth := t.depth - 1 })
    (fun _ t => t.frame.returned) (fun s => ?_) (fun _ => rfl) fun _ _ => rfl
  unfold Run.inFrame
  cases m _ <;> rfl

theorem effect (f : Native) (args : List Value) : (Run.onStore (f.effect args)).MindsInput := by
  refine onStore (fun s r hr => ?_) fun s hr => ?_
  · obtain ⟨v, t⟩ := r
    cases Native.does_of_effect hr <;> rfl
  · rcases Native.effect_error hr with hfresh | ⟨-, hbroken⟩
    · exact hfresh.elim
    · exact hbroken

theorem writeTo (path contents : String) (append : Value) :
    (Native.writeTo path contents append).MindsInput where
  kept s t ht := by
    obtain ⟨_, rfl⟩ := Native.writeTo_state ht
    rfl
  undecodable s t ht := (Native.writeTo_fresh ht).elim

/-- Every part of an evaluation minds the input. -/
theorem congruence (opts : Options) : Congruence opts opts fun _ m _ => m.MindsInput where
  pure := pure
  bind := bind
  halt := halt
  exhausted _ := of_state_eq (fun _ _ ht => by cases ht) fun _ _ _ => nofun
  read _ := of_state_eq (fun _ _ ht => by cases ht; rfl) fun _ _ _ => nofun
  bindName _ _ := modify fun _ => rfl
  signalReturn _ := modify fun _ => rfl
  newList _ := onStore (fun _ _ hr => by cases hr; rfl) fun _ => nofun
  setItem op id n v := onHeap fun h => h.set_freshly op id n v
  pushItem op id v := onHeap fun h => h.push_freshly op id v
  effect := effect
  writeTo := writeTo
  trace := trace _
  located span := located span
  iterating id := iterating id
  inFrame frame := inFrame frame
  deeper h _ := by
    split
    · exact halt rfl
    · exact h
  policy := rfl

end Run.MindsInput

/-- A run finds the input undecodable only if it starts with such input. -/
theorem Program.broken_of_undecodable {p : Program} {opts : Options} {fuel : Nat}
    {arguments : List String} {s t : State}
    (hrun : p.run opts fuel arguments s = .halted (.crash .undecodableInput) t) :
    s.store.stdin.broken = true :=
  ((Run.MindsInput.congruence opts).run (Nat.le_refl fuel) p arguments).undecodable s t hrun

end TagScript
