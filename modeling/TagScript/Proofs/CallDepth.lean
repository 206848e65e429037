import TagScript.Proofs.Environments.CallStack
import TagScript.Proofs.Eval.Fuel

set_option autoImplicit false

/-! # The limit of the call depth

Evaluation looks at the limit in one place, the check before a call of a program function, and there
a higher limit lets pass what a lower one does. So two runs under different limits go the same way
until the lower limit is exceeded (`Run.AlikeUnlessExceeded`). Together with the count of the calls
in progress this says what the limit does: it bounds the calls in progress, and nothing else. -/

namespace TagScript

/-- The run halted because the limit of the call depth was exceeded. -/
def Outcome.ExceedsDepth {σ α : Type} (o : Outcome σ α) : Prop :=
  ∃ limit span s, o = .halted (.fault (.callDepth limit) span) s

/-- The second run goes the same way as the first wherever the first comes to an end without
    exceeding its limit. -/
def Run.AlikeUnlessExceeded {α : Type} (m m' : Run α) : Prop :=
  ∀ s, m s = .outOfFuel ∨ (m s).ExceedsDepth ∨ m' s = m s

namespace Run.AlikeUnlessExceeded

variable {α β : Type}

theorem refl (m : Run α) : m.AlikeUnlessExceeded m := fun _ => .inr (.inr rfl)

theorem bind {m m' : Run α} {f f' : α → Run β} (hm : m.AlikeUnlessExceeded m')
    (hf : ∀ a, (f a).AlikeUnlessExceeded (f' a)) :
    (m >>= f).AlikeUnlessExceeded (m' >>= f') := by
  intro s
  rcases hm s with h | ⟨limit, span, t, h⟩ | h
  · exact .inl (bind_outOfFuel h)
  · exact .inr (.inl ⟨limit, span, t, bind_halted h⟩)
  · rw [bind_apply, bind_apply, h]
    cases m s with
    | done a t => exact hf a t
    | halted k t => exact .inr (.inr rfl)
    | outOfFuel => exact .inr (.inr rfl)

/-- Placing a fault does not change what it is about. -/
theorem located (span : Option Span) {m m' : Run α} (hm : m.AlikeUnlessExceeded m') :
    (Run.located span m).AlikeUnlessExceeded (Run.located span m') := by
  intro s
  unfold Run.located
  rcases hm s with h | ⟨limit, place, t, h⟩ | h
  · exact .inl (by rw [h])
  · rw [h]
    cases place with
    | none => exact .inr (.inl ⟨limit, span, t, rfl⟩)
    | some place => exact .inr (.inl ⟨limit, some place, t, rfl⟩)
  · exact .inr (.inr (by rw [h]))

theorem iterating (id : Nat) {m m' : Run α} (hm : m.AlikeUnlessExceeded m') :
    (Run.iterating id m).AlikeUnlessExceeded (Run.iterating id m') := by
  intro s
  unfold Run.iterating
  rcases hm _ with h | ⟨limit, span, t, h⟩ | h
  · exact .inl (by rw [h]; rfl)
  · exact .inr (.inl ⟨limit, span, _, by rw [h]; rfl⟩)
  · exact .inr (.inr (by rw [h]))

theorem inFrame (frame : Frame) {m m' : Run Unit} (hm : m.AlikeUnlessExceeded m') :
    (Run.inFrame frame m).AlikeUnlessExceeded (Run.inFrame frame m') := by
  intro s
  unfold Run.inFrame
  rcases hm _ with h | ⟨limit, span, t, h⟩ | h
  · exact .inl (by rw [h])
  · exact .inr (.inl ⟨limit, span, _, by rw [h]⟩)
  · exact .inr (.inr (by rw [h]))

/-- Every part of an evaluation goes the same way under a higher limit. -/
theorem congruence (opts : Options) {limit : Int} (hlimit : opts.maxCallDepth ≤ limit) :
    Congruence opts { opts with maxCallDepth := limit } fun _ m m' => m.AlikeUnlessExceeded m' where
  pure _ := refl _
  bind := bind
  halt _ := refl _
  exhausted _ := fun _ => .inl rfl
  read _ := refl _
  bindName _ _ := refl _
  signalReturn _ := refl _
  newList _ := refl _
  setItem _ _ _ _ := refl _
  pushItem _ _ _ := refl _
  effect _ _ := refl _
  writeTo _ _ _ := refl _
  trace _ := refl _
  located span := located span
  iterating id := iterating id
  inFrame frame := inFrame frame
  deeper {_ m m'} h depth := by
    by_cases hexceeded : opts.maxCallDepth ≤ depth
    · rw [if_pos hexceeded]
      exact fun s => .inr (.inl ⟨_, none, s, rfl⟩)
    · have hbelow : ¬ limit ≤ depth := fun hle => hexceeded (Int.le_trans hlimit hle)
      rw [if_neg hexceeded, if_neg hbelow]
      exact h
  policy := rfl

end Run.AlikeUnlessExceeded

/-- A run that comes to an end without exceeding the limit is the same under a higher limit. -/
theorem Program.Ends.of_limit_le {p : Program} {opts : Options} {arguments : List String}
    {s : State} {o : Outcome State Unit} (h : p.Ends opts arguments s o) (ho : ¬ o.ExceedsDepth)
    {limit : Int} (hlimit : opts.maxCallDepth ≤ limit) :
    p.Ends { opts with maxCallDepth := limit } arguments s o := by
  obtain ⟨hfinished, fuel, rfl⟩ := h
  refine ⟨hfinished, fuel, ?_⟩
  have c := Run.AlikeUnlessExceeded.congruence opts hlimit
  rcases c.run (Nat.le_refl fuel) p arguments s with hfuel | hexceeded | hsame
  · rw [hfuel] at hfinished
    cases hfinished
  · exact absurd hexceeded ho
  · exact hsame

/-- What the limit of the call depth does. At every moment of a run, whether or not it ends, the
    depth is the number of environments on the table beyond the root and the main environment, one
    for each call of a program function in progress, and it is within the limit; native functions
    neither count nor are limited. A run that ends without exceeding the limit is the same under
    every higher limit; so where the runs under two limits differ, the one under the lower limit has
    exceeded it. -/
theorem call_depth_limit (opts : Options) :
    (0 ≤ opts.maxCallDepth → ∀ fuel p arguments store alarm,
      let watch := Linked.alarmUnless (fun _ s => s.Counts opts.maxCallDepth 2) alarm
      let s := Session.start p arguments store
      Linked.run opts Linked.unwatched fuel p 1 s = s.perform 1 (p.run opts fuel arguments) ∧
      Linked.run opts watch fuel p 1 s = Linked.run opts Linked.unwatched fuel p 1 s) ∧
    (∀ ev outer scope f args limit,
      (Eval.callValue opts ev outer scope (.native f) args).KeepsDepth ∧
      Eval.callValue { opts with maxCallDepth := limit } ev outer scope (.native f) args
        = Eval.callValue opts ev outer scope (.native f) args) ∧
    (∀ limit, opts.maxCallDepth ≤ limit → ∀ (p : Program) arguments s o,
      p.Ends opts arguments s o → ¬ o.ExceedsDepth →
      p.Ends { opts with maxCallDepth := limit } arguments s o) ∧
    (∀ limit, opts.maxCallDepth ≤ limit → ∀ (p : Program) arguments s o o',
      p.Ends opts arguments s o → p.Ends { opts with maxCallDepth := limit } arguments s o' →
      o ≠ o' → o.ExceedsDepth) := by
  refine ⟨fun hlimit fuel p arguments store alarm => ⟨?_, ?_⟩, fun ev outer scope f args limit =>
    ⟨?_, rfl⟩, fun limit hlimit p arguments s o h ho => h.of_limit_le ho hlimit,
    fun limit hlimit p arguments s o o' h h' hne => ?_⟩
  · exact Linked.run_eq opts fuel p arguments store 0 fun _ _ _ => rfl
  · -- the root and the main environment are there before the first call
    have hstart : (Session.start p arguments store).Counts opts.maxCallDepth 2 := ⟨rfl, hlimit⟩
    exact (Linked.Counted.run opts (.alarmUnless _ 2 alarm) fuel p 1 _ hstart).1
  · exact .bind (.trace _ _) fun _ => .native f args
  · apply Classical.byContradiction
    intro ho
    exact hne ((h.of_limit_le ho hlimit).unique h')

/-- A program whose main block calls a function that calls another one. -/
def twoDeep : Program where
  functions :=
    [⟨"f", [], [.mk .callNamed (some "g") [] [] [] none], ⟨"", 1, 1, 1, 1⟩⟩,
     ⟨"g", [], [.mk .callNamed (some "input") [] [] [] none], ⟨"", 1, 1, 1, 1⟩⟩]
  main := [.mk .callNamed (some "f") [] [] [] none]

/-- Two calls are in progress at most, a native one aside: the limit of one is exceeded, and with
    the limit of two the program runs as it does with any higher one. -/
theorem call_depth_limit_twoDeep :
    (∃ o, twoDeep.Ends { maxCallDepth := 1 } [] (Program.start {} {}) o ∧ o.ExceedsDepth) ∧
    ∃ t, ∀ limit : Int, 2 ≤ limit →
      twoDeep.Ends { maxCallDepth := limit } [] (Program.start {} {}) (.done () t) := by
  refine ⟨⟨_, ⟨rfl, 9, rfl⟩, _, _, _, rfl⟩, ?_⟩
  obtain ⟨t, ht⟩ : ∃ t,
      twoDeep.Ends { maxCallDepth := 2 } [] (Program.start {} {}) (.done () t) :=
    ⟨_, rfl, 9, rfl⟩
  refine ⟨t, fun limit hlimit => ?_⟩
  refine (call_depth_limit { maxCallDepth := 2 }).2.2.1 limit hlimit twoDeep [] _ _ ht ?_
  rintro ⟨_, _, _, ⟨⟩⟩

end TagScript
