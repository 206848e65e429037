import TagScript.Proofs.Eval.Congruence
import TagScript.Proofs.Eval.Outcome

set_option autoImplicit false

/-! # Fuel

Fuel bounds evaluation from outside only: a run that comes to an end is the same with more fuel
(`eval_of_le`, `Program.run_of_le`). So it makes sense to speak of *the* outcome of a run
(`Program.Ends`), of which there is at most one, and of a run that terminates. -/

namespace TagScript

/-- The second run goes the same way as the first wherever the first comes to an end. -/
def Run.ExtendedBy {α : Type} (m m' : Run α) : Prop := ∀ s, m s = .outOfFuel ∨ m' s = m s

namespace Run.ExtendedBy

variable {α β : Type}

theorem refl (m : Run α) : m.ExtendedBy m := fun _ => .inr rfl

theorem bind {m m' : Run α} {f f' : α → Run β} (hm : m.ExtendedBy m')
    (hf : ∀ a, (f a).ExtendedBy (f' a)) : (m >>= f).ExtendedBy (m' >>= f') := by
  intro s
  rcases hm s with h | h
  · exact .inl (bind_outOfFuel h)
  · rw [bind_apply, bind_apply, h]
    cases m s with
    | done a t => exact hf a t
    | halted k t => exact .inr rfl
    | outOfFuel => exact .inr rfl

theorem located (span : Option Span) {m m' : Run α} (hm : m.ExtendedBy m') :
    (Run.located span m).ExtendedBy (Run.located span m') := by
  intro s
  unfold Run.located
  rcases hm s with h | h
  · exact .inl (by rw [h])
  · exact .inr (by rw [h])

theorem iterating (id : Nat) {m m' : Run α} (hm : m.ExtendedBy m') :
    (Run.iterating id m).ExtendedBy (Run.iterating id m') := by
  intro s
  unfold Run.iterating
  rcases hm _ with h | h
  · exact .inl (by rw [h]; rfl)
  · exact .inr (by rw [h])

theorem inFrame (frame : Frame) {m m' : Run Unit} (hm : m.ExtendedBy m') :
    (Run.inFrame frame m).ExtendedBy (Run.inFrame frame m') := by
  intro s
  unfold Run.inFrame
  rcases hm _ with h | h
  · exact .inl (by rw [h])
  · exact .inr (by rw [h])

/-- Every part of an evaluation goes the same way with parts that do. -/
theorem congruence (opts : Options) :
    Congruence opts opts fun _ m m' => m.ExtendedBy m' where
  pure _ := refl _
  bind := bind
  halt _ := refl _
  exhausted _ := fun _ => .inl rfl
  read _ := refl _
  bindName _ _ := refl _
  signalReturn _ := refl _
  newList _ := refl _
  setItem _ _ _ _ := refl _
  pushItem _ _ _ := refl _
  effect _ _ := refl _
  writeTo _ _ _ := refl _
  trace _ := refl _
  located span := located span
  iterating id := iterating id
  inFrame frame := inFrame frame
  deeper h _ := by
    split
    · exact refl _
    · exact h
  policy := rfl

/-- A run that came to an end has the same outcome as one that extends it. -/
theorem eq_of_finished {m m' : Run α} (h : m.ExtendedBy m') {s : State}
    (hs : (m s).finished = true) : m' s = m s := by
  rcases h s with hf | hf
  · rw [hf] at hs
    cases hs
  · exact hf

end Run.ExtendedBy

/-- Evaluation that comes to an end is the same with more fuel. -/
theorem eval_of_le (opts : Options) {fuel fuel' : Nat} (hf : fuel ≤ fuel') (outer : List Frame)
    (i : Instr) {s : State} (h : (eval opts fuel outer i s).finished = true) :
    eval opts fuel' outer i s = eval opts fuel outer i s :=
  ((Run.ExtendedBy.congruence opts).eval hf outer i).eq_of_finished h

namespace Program

/-- A run of a program that comes to an end is the same with more fuel. -/
theorem run_of_le (p : Program) (opts : Options) {fuel fuel' : Nat} (hf : fuel ≤ fuel')
    (arguments : List String) {s : State} (h : (p.run opts fuel arguments s).finished = true) :
    p.run opts fuel' arguments s = p.run opts fuel arguments s :=
  ((Run.ExtendedBy.congruence opts).run hf p arguments).eq_of_finished h

/-- The state in which a program is started. -/
def start (files : Files) (stdin : Input) : State := { store := { files, stdin } }

/-- The outcome of a run, however much fuel it takes. -/
def Ends (p : Program) (opts : Options) (arguments : List String) (s : State)
    (o : Outcome State Unit) : Prop :=
  o.finished = true ∧ ∃ fuel, p.run opts fuel arguments s = o

/-- The run comes to an end. -/
def Terminates (p : Program) (opts : Options) (arguments : List String) (s : State) : Prop :=
  ∃ o, p.Ends opts arguments s o

/-- A run has at most one outcome. -/
theorem Ends.unique {p : Program} {opts : Options} {arguments : List String} {s : State}
    {o o' : Outcome State Unit} (h : p.Ends opts arguments s o)
    (h' : p.Ends opts arguments s o') : o = o' := by
  obtain ⟨ho, fuel, rfl⟩ := h
  obtain ⟨ho', fuel', rfl⟩ := h'
  rcases Nat.le_total fuel fuel' with hle | hle
  · exact (p.run_of_le opts hle arguments ho).symm
  · exact p.run_of_le opts hle arguments ho'

end Program

end TagScript
