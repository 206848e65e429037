import TagScript.Proofs.Eval.Fuel
import TagScript.Proofs.Eval.Native
import TagScript.Proofs.Eval.Rounds

set_option autoImplicit false

/-! # Runs with and without tracing

Trace lines go to the error stream, which no part of a run reads. Evaluation with tracing and
evaluation without it therefore go the same way side by side, and their states stay the same but for
trace lines (`Run.Alongside`). One of the two may stop where the other does not, but only over a
line that has to show an absent value. -/

namespace TagScript

/-! ## States that are the same but for trace lines -/

/-- The state after a trace line. -/
def State.trace (s : State) (line : String) : State := { s with store := s.store.trace line }

/-- The state after several trace lines, if tracing is on. -/
def State.traceAll (s : State) (debug : Bool) (lines : List String) : State :=
  { s with store := s.store.traceAll debug lines }

@[simp] theorem State.traceAll_false (s : State) (lines : List String) :
    s.traceAll false lines = s := rfl

theorem State.traceAll_cons (s : State) (line : String) (lines : List String) :
    s.traceAll true (line :: lines) = (s.trace line).traceAll true lines := rfl

theorem State.traceAll_concat (s : State) (lines : List String) (line : String) :
    s.traceAll true (lines ++ [line]) = (s.traceAll true lines).trace line := by
  simp [State.traceAll, Store.traceAll, State.trace]

/-- The two states are the same but for trace lines, which are in the first one if `debug` holds and
    in the second one otherwise. -/
def State.Echoes (debug : Bool) (s t : State) : Prop :=
  ∃ (u : State) (lines : List String), s = u.traceAll debug lines ∧ t = u.traceAll (!debug) lines

theorem State.Echoes.refl (debug : Bool) (s : State) : s.Echoes debug s := by
  refine ⟨s, [], ?_⟩
  cases debug <;> exact ⟨rfl, rfl⟩

theorem State.echoes_false {s t : State} :
    s.Echoes false t ↔ ∃ lines, t = s.traceAll true lines := by
  constructor
  · rintro ⟨u, lines, rfl, rfl⟩
    exact ⟨lines, rfl⟩
  · rintro ⟨lines, rfl⟩
    exact ⟨s, lines, rfl, rfl⟩

theorem State.echoes_true {s t : State} : s.Echoes true t ↔ t.Echoes false s := by
  constructor
  · rintro ⟨u, lines, rfl, rfl⟩
    exact ⟨u, lines, rfl, rfl⟩
  · rintro ⟨u, lines, rfl, rfl⟩
    exact ⟨u, lines, rfl, rfl⟩

/-- A change of the state that has no regard for trace lines. -/
theorem State.Echoes.map {debug : Bool} {s t : State} (h : s.Echoes debug t) {f : State → State}
    (hf : ∀ u line, f (u.trace line) = (f u).trace line) : (f s).Echoes debug (f t) := by
  have hall : ∀ lines u, f (u.traceAll true lines) = (f u).traceAll true lines := by
    intro lines
    induction lines with
    | nil => exact fun _ => rfl
    | cons line lines ih => exact fun u => by rw [State.traceAll_cons, ih, hf, State.traceAll_cons]
  obtain ⟨u, lines, rfl, rfl⟩ := h
  refine ⟨f u, lines, ?_⟩
  cases debug with
  | false => exact ⟨rfl, hall lines u⟩
  | true => exact ⟨hall lines u, rfl⟩

theorem State.Echoes.frame_eq {debug : Bool} {s t : State} (h : s.Echoes debug t) :
    s.frame = t.frame := by
  obtain ⟨u, lines, rfl, rfl⟩ := h
  rfl

/-! ## Runs that have no regard for trace lines -/

/-- Trace lines that are there before the run make no difference to it. -/
def Run.Mute {α : Type} (m : Run α) : Prop :=
  ∀ (s : State) (line : String), m (s.trace line) = (m s).mapState (·.trace line)

namespace Run.Mute

variable {α : Type}

theorem traceAll {m : Run α} (h : m.Mute) (s : State) (debug : Bool) (lines : List String) :
    m (s.traceAll debug lines) = (m s).mapState (·.traceAll debug lines) := by
  cases debug with
  | false =>
      simp only [State.traceAll_false]
      cases m s <;> rfl
  | true =>
      induction lines generalizing s with
      | nil =>
          show m s = _
          cases m s <;> rfl
      | cons line lines ih =>
          rw [State.traceAll_cons, ih, h s line]
          cases m s <;> rfl

theorem onStore {f : Store → Except Halt (α × Store)}
    (h : ∀ s line, f (s.trace line) = (f s).map fun r => (r.1, r.2.trace line)) :
    (Run.onStore f).Mute := by
  intro s line
  simp only [Run.onStore, State.trace, h]
  cases f s.store <;> rfl

theorem onHeap (f : Heap → Except Halt Heap) : (Run.onHeap f).Mute := by
  refine onStore fun s line => ?_
  show Except.map _ (f s.heap) = _
  cases f s.heap <;> rfl

end Run.Mute

theorem Native.writeTo_mute (path contents : String) (append : Value) :
    (Native.writeTo path contents append).Mute :=
  Run.Mute.onStore fun _ _ => except_bind_map fun _ => except_bind_map fun _ =>
    except_bind_map fun _ => rfl

/-! ## Runs side by side -/

/-- The run has halted over an absent value that was to be shown. -/
def Outcome.FindsAbsent {σ α : Type} (o : Outcome σ α) : Prop :=
  ∃ s, o = .halted (.crash .absentInspected) s

/-- From states that are the same but for trace lines, the second run goes the same way as the
    first, unless one of them finds an absent value or the first one lacks fuel. -/
def Run.Alongside {α : Type} (debug : Bool) (m m' : Run α) : Prop :=
  ∀ s t, s.Echoes debug t → m s = .outOfFuel ∨ (m s).FindsAbsent ∨ (m' t).FindsAbsent ∨
    (m s).Like (State.Echoes debug) (m' t)

namespace Run.Alongside

variable {debug : Bool} {α β : Type}

theorem of_mute {m : Run α} (h : m.Mute) : Alongside debug m m := by
  rintro _ _ ⟨u, lines, rfl, rfl⟩
  refine .inr (.inr (.inr ?_))
  rw [h.traceAll, h.traceAll]
  cases m u with
  | done a t => exact ⟨rfl, t, lines, rfl, rfl⟩
  | halted k t => exact ⟨rfl, t, lines, rfl, rfl⟩
  | outOfFuel => exact trivial

theorem bind {m m' : Run α} {f f' : α → Run β} (hm : Alongside debug m m')
    (hf : ∀ a, Alongside debug (f a) (f' a)) : Alongside debug (m >>= f) (m' >>= f') := by
  intro s t hst
  rcases hm s t hst with h | ⟨u, h⟩ | ⟨u, h⟩ | h
  · exact .inl (bind_outOfFuel h)
  · exact .inr (.inl ⟨u, bind_halted h⟩)
  · exact .inr (.inr (.inl ⟨u, bind_halted h⟩))
  · rw [bind_apply, bind_apply]
    generalize m s = o at h
    generalize m' t = o' at h
    cases o <;> cases o' <;> simp only [Outcome.Like] at h
    · obtain ⟨rfl, hu⟩ := h
      exact hf _ _ _ hu
    · exact .inr (.inr (.inr h))
    · exact .inl rfl

theorem located (span : Option Span) {m m' : Run α} (hm : Alongside debug m m') :
    Alongside debug (Run.located span m) (Run.located span m') := by
  intro s t hst
  unfold Run.located
  rcases hm s t hst with h | ⟨u, h⟩ | ⟨u, h⟩ | h
  · exact .inl (by rw [h])
  · exact .inr (.inl ⟨u, by rw [h]; rfl⟩)
  · exact .inr (.inr (.inl ⟨u, by rw [h]; rfl⟩))
  · refine .inr (.inr (.inr ?_))
    generalize m s = o at h ⊢
    generalize m' t = o' at h ⊢
    cases o <;> cases o' <;> simp only [Outcome.Like] at h ⊢
    · exact h
    · exact ⟨by rw [h.1], h.2⟩

theorem iterating (id : Nat) {m m' : Run α} (hm : Alongside debug m m') :
    Alongside debug (Run.iterating id m) (Run.iterating id m') := by
  intro s t hst
  rw [Run.iterating_apply, Run.iterating_apply]
  rcases hm _ _ (hst.map (f := fun u => u.lock id) fun _ _ => rfl) with h | ⟨u, h⟩ | ⟨u, h⟩ | h
  · exact .inl (by rw [h]; rfl)
  · exact .inr (.inl ⟨_, by rw [h]; rfl⟩)
  · exact .inr (.inr (.inl ⟨_, by rw [h]; rfl⟩))
  · refine .inr (.inr (.inr (h.mapState fun u v huv => ?_)))
    exact huv.map (f := fun w => w.unlock id) fun _ _ => rfl

/-- The caller's frame is the same on both sides, and so is what the frame of the call returned. -/
theorem inFrame (frame : Frame) {m m' : Run Unit} (hm : Alongside debug m m') :
    Alongside debug (Run.inFrame frame m) (Run.inFrame frame m') := by
  intro s t hst
  have hstart := hst.map (f := fun u => { u with frame, depth := u.depth + 1 }) fun _ _ => rfl
  have hback : ∀ {u v : State}, u.Echoes debug v →
      State.Echoes debug { u with frame := s.frame, depth := u.depth - 1 }
        { v with frame := t.frame, depth := v.depth - 1 } := by
    intro u v huv
    rw [← hst.frame_eq]
    exact huv.map (f := fun w => { w with frame := s.frame, depth := w.depth - 1 }) fun _ _ => rfl
  unfold Run.inFrame
  rcases hm _ _ hstart with h | ⟨u, h⟩ | ⟨u, h⟩ | h
  · exact .inl (by rw [h])
  · exact .inr (.inl ⟨_, by rw [h]⟩)
  · exact .inr (.inr (.inl ⟨_, by rw [h]⟩))
  · refine .inr (.inr (.inr ?_))
    generalize m { s with frame, depth := s.depth + 1 } = o at h ⊢
    generalize m' { t with frame, depth := t.depth + 1 } = o' at h ⊢
    cases o <;> cases o' <;> simp only [Outcome.Like] at h ⊢
    · exact ⟨by rw [h.2.frame_eq], hback h.2⟩
    · exact ⟨h.1, hback h.2⟩

/-- One of the two runs writes the line, and the other does nothing. -/
theorem trace {line : State → Except Halt String} (hline : Eval.IsTraceLine line) :
    Alongside debug (Run.trace debug line) (Run.trace (!debug) line) := by
  have hwritten : ∀ (u : State) (lines : List String) (text : String),
      { u.traceAll true lines with store := (u.traceAll true lines).store.trace text }
        = u.traceAll true (lines ++ [text]) := by
    intro u lines text
    exact (u.traceAll_concat lines text).symm
  rintro _ _ ⟨u, lines, rfl, rfl⟩
  -- only the run that writes the line can halt over it, and only over an absent value
  cases debug with
  | false =>
      rw [Bool.not_false, Run.trace_true_apply]
      cases htext : line (u.traceAll true lines) with
      | ok text => exact .inr (.inr (.inr ⟨rfl, u, lines ++ [text], rfl, hwritten u lines text⟩))
      | error k => exact .inr (.inr (.inl ⟨_, by rw [hline _ _ htext]⟩))
  | true =>
      rw [Bool.not_true, Run.trace_true_apply]
      cases htext : line (u.traceAll true lines) with
      | ok text => exact .inr (.inr (.inr ⟨rfl, u, lines ++ [text], hwritten u lines text, rfl⟩))
      | error k => exact .inr (.inl ⟨_, by rw [hline _ _ htext]⟩)

/-- Evaluation with tracing and evaluation without it go the same way. -/
theorem congruence (opts : Options) (debug : Bool) :
    Congruence { opts with debug } { opts with debug := !debug }
      fun _ m m' => Alongside debug m m' where
  pure _ := of_mute fun _ _ => rfl
  bind := bind
  halt _ := of_mute fun _ _ => rfl
  exhausted _ := fun _ _ _ => .inl rfl
  read _ := of_mute fun _ _ => rfl
  bindName _ _ := of_mute fun _ _ => rfl
  signalReturn _ := of_mute fun _ _ => rfl
  newList _ := of_mute (.onStore fun _ _ => rfl)
  setItem _ _ _ _ := of_mute (.onHeap _)
  pushItem _ _ _ := of_mute (.onHeap _)
  effect f args := of_mute (.onStore (f.effect_trace args))
  writeTo path contents append := of_mute (Native.writeTo_mute path contents append)
  trace := trace
  located span := located span
  iterating id := iterating id
  inFrame frame := inFrame frame
  deeper h depth := by
    split
    · exact of_mute fun _ _ => rfl
    · exact h
  policy := rfl

end Run.Alongside

end TagScript
