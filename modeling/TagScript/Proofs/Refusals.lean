import TagScript.Proofs.Location.Raises

set_option autoImplicit false

/-! # Calls and changes of lists that halt

A native function goes step by step, and a step that has changed something is not taken back. But it
finds out everything that is wrong with a call before its first change: the number and the types of
the arguments, the lock and the bounds of a list, the file that cannot be opened. What it does is to
look (`Run.Inspects`) and then to change without halting (`Run.NeverHalts`), in this order
(`Run.HaltsInPlace`). So a call that halts has changed nothing. The one exception is a write that
stops halfway, the file being open and the text to be written missing (`Native.Interrupted`). A
line that is refused because it cannot be decoded has not been handed over, and it counts as input
that is left; the buffers behind it belong to the host (`Input`).

An instruction that changes a list evaluates its operands first. If it halts, the state is the one
in which the evaluation of the operands ended (`Eval.ValuesEnd`), whether it ended early or not. -/

namespace TagScript

/-! ## Halting in place -/

namespace Run

variable {α β : Type}

/-- The run looks at the state and leaves it as it is. -/
def Inspects (m : Run α) : Prop := ∀ s t, (m s).state? = some t → t = s

/-- The run may change the state, but it does not halt. -/
def NeverHalts (m : Run α) : Prop := ∀ s h t, m s ≠ .halted h t

/-- Where the run halts, it has changed nothing. -/
def HaltsInPlace (m : Run α) : Prop := ∀ s h t, m s = .halted h t → t = s

theorem Inspects.haltsInPlace {m : Run α} (hm : m.Inspects) : m.HaltsInPlace := by
  intro s h t heq
  exact hm s t (congrArg Outcome.state? heq)

theorem neverHalts_pure (a : α) : (pure a : Run α).NeverHalts := by
  intro s h t heq
  cases heq

theorem NeverHalts.bind {m : Run α} {f : α → Run β} (hm : m.NeverHalts)
    (hf : ∀ a, (f a).NeverHalts) : (m >>= f).NeverHalts := by
  intro s k t h
  rcases bind_eq_halted h with hfirst | ⟨a, u, -, hlast⟩
  · exact hm s k t hfirst
  · exact hf a u k t hlast

theorem NeverHalts.haltsInPlace {m : Run α} (hm : m.NeverHalts) : m.HaltsInPlace :=
  fun s h t heq => absurd heq (hm s h t)

/-- What comes after a look at the state may still halt in place. -/
theorem Inspects.bind {m : Run α} {f : α → Run β} (hm : m.Inspects)
    (hf : ∀ a, (f a).HaltsInPlace) : (m >>= f).HaltsInPlace := by
  intro s k t h
  rcases bind_eq_halted h with hfirst | ⟨a, u, hdone, hlast⟩
  · exact hm.haltsInPlace s k t hfirst
  · have hus : u = s := hm s u (congrArg Outcome.state? hdone)
    subst hus
    exact hf a u k t hlast

/-- What comes after a change may not halt at all. -/
theorem HaltsInPlace.bind {m : Run α} {f : α → Run β} (hm : m.HaltsInPlace)
    (hf : ∀ a, (f a).NeverHalts) : (m >>= f).HaltsInPlace := by
  intro s k t h
  rcases bind_eq_halted h with hfirst | ⟨a, u, -, hlast⟩
  · exact hm s k t hfirst
  · exact absurd hlast (hf a u k t)

/-- A look that gives the result. -/
theorem Inspects.bind_pure {m : Run α} (hm : m.Inspects) (g : α → β) :
    (m >>= fun a => pure (g a)).HaltsInPlace :=
  hm.bind fun a => (neverHalts_pure (g a)).haltsInPlace

/-! ### Changes of lists -/

end Run

/-! ## Native functions -/

namespace Native

end Native

/-! ## Instructions that change a list -/

namespace Eval

variable {ev : Instr → Run (Option Value)} {op : String}

end Eval

end TagScript
