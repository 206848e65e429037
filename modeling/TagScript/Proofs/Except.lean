set_option autoImplicit false

/-! # Results and refusals

What a refusal or a result of two steps, or of a step and a change of what it gives, says about
the first step. -/

namespace TagScript

/-- The first of two steps was accepted if the two together are. -/
theorem except_bind_ok {ε α β : Type} {x : Except ε α} {f : α → Except ε β} {b : β}
    (h : (x >>= f) = .ok b) : ∃ a, x = .ok a ∧ f a = .ok b := by
  cases x with
  | ok a => exact ⟨a, rfl, h⟩
  | error e => cases h

/-- The result of a function applied to what was accepted. -/
theorem except_map_ok {ε α β : Type} {x : Except ε α} {f : α → β} {b : β}
    (h : x.map f = .ok b) : ∃ a, x = .ok a ∧ f a = b := by
  cases x with
  | ok a =>
      cases h
      exact ⟨a, rfl, rfl⟩
  | error e => cases h

/-- A function is applied to nothing where there is a refusal. -/
theorem except_map_error {ε α β : Type} {x : Except ε α} {f : α → β} {e : ε}
    (h : x.map f = .error e) : x = .error e := by
  cases x with
  | ok a => cases h
  | error e' =>
      cases h
      rfl

/-- An accepted value changed before the next step, or what that step gives changed after it. -/
theorem except_map_bind {ε α β γ δ : Type} {x : Except ε α} {g : α → β} {h : γ → δ}
    {f : α → Except ε γ} {f' : β → Except ε δ} (hf : ∀ a, f' (g a) = (f a).map h) :
    (x.map g >>= f') = (x >>= f).map h := by
  cases x with
  | ok a => exact hf a
  | error k => rfl

/-- A step that is the same on both sides. -/
theorem except_bind_map {ε α γ δ : Type} {x : Except ε α} {h : γ → δ}
    {f : α → Except ε γ} {f' : α → Except ε δ} (hf : ∀ a, f' a = (f a).map h) :
    (x >>= f') = (x >>= f).map h := by
  cases x with
  | ok a => exact hf a
  | error k => rfl

end TagScript
