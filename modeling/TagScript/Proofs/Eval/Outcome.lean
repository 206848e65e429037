import TagScript.Eval.Run
import TagScript.Proofs.Except

set_option autoImplicit false

/-! # Outcomes of runs

What the state after a run is, what two runs have to share to be alike, and what the outcome of one
run after another says about the two. -/

namespace TagScript

namespace Outcome

variable {σ τ α β : Type}

/-- The state that a run has reached, if it came to an end. -/
def state? : Outcome σ α → Option σ
  | .done _ s => some s
  | .halted _ s => some s
  | .outOfFuel => none

@[simp] theorem state?_mapState (f : σ → τ) (o : Outcome σ α) :
    (o.mapState f).state? = o.state?.map f := by
  cases o <;> rfl

theorem eq_of_not_finished {o : Outcome σ α} (h : o.finished = false) : o = .outOfFuel := by
  cases o with
  | outOfFuel => rfl
  | _ => cases h

/-- Outcomes of the same sort, with the same result or the same reason to halt, in states that are
    related. -/
def Like (R : σ → σ → Prop) : Outcome σ α → Outcome σ α → Prop
  | .done a s, .done b t => a = b ∧ R s t
  | .halted h s, .halted k t => h = k ∧ R s t
  | .outOfFuel, .outOfFuel => True
  | _, _ => False

theorem Like.mono {R S : σ → σ → Prop} (hRS : ∀ s t, R s t → S s t) {o o' : Outcome σ α}
    (h : Like R o o') : Like S o o' := by
  cases o <;> cases o' <;> simp only [Like] at h ⊢
  · exact ⟨h.1, hRS _ _ h.2⟩
  · exact ⟨h.1, hRS _ _ h.2⟩

theorem Like.mapState {R : σ → σ → Prop} {S : τ → τ → Prop} {f : σ → τ}
    (hRS : ∀ s t, R s t → S (f s) (f t)) {o o' : Outcome σ α} (h : Like R o o') :
    Like S (o.mapState f) (o'.mapState f) := by
  cases o <;> cases o' <;> simp only [Like, Outcome.mapState] at h ⊢
  · exact ⟨h.1, hRS _ _ h.2⟩
  · exact ⟨h.1, hRS _ _ h.2⟩

theorem Like.of_done {R : σ → σ → Prop} {a : α} {s : σ} {o : Outcome σ α}
    (h : Like R (.done a s) o) : ∃ t, o = .done a t ∧ R s t := by
  cases o with
  | done b t =>
      obtain ⟨rfl, hR⟩ := h
      exact ⟨t, rfl, hR⟩
  | _ => cases h

theorem Like.finished_eq {R : σ → σ → Prop} {o o' : Outcome σ α} (h : Like R o o') :
    o.finished = o'.finished := by
  cases o <;> cases o' <;> simp only [Like] at h <;> rfl

end Outcome

namespace Run

variable {α β : Type}

/-- The first of two runs was done if the two together are. -/
theorem bind_eq_done {m : Run α} {f : α → Run β} {s t : State} {b : β}
    (h : (m >>= f) s = .done b t) : ∃ a u, m s = .done a u ∧ f a u = .done b t := by
  rw [bind_apply] at h
  cases hm : m s with
  | done a u =>
      rw [hm] at h
      exact ⟨a, u, rfl, h⟩
  | halted k u =>
      rw [hm] at h
      cases h
  | outOfFuel =>
      rw [hm] at h
      cases h

/-- If two runs together halt, either of them did. -/
theorem bind_eq_halted {m : Run α} {f : α → Run β} {s t : State} {k : Halt}
    (h : (m >>= f) s = .halted k t) :
    m s = .halted k t ∨ ∃ a u, m s = .done a u ∧ f a u = .halted k t := by
  rw [bind_apply] at h
  cases hm : m s with
  | done a u =>
      rw [hm] at h
      exact .inr ⟨a, u, rfl, h⟩
  | halted k' u =>
      rw [hm] at h
      cases h
      exact .inl rfl
  | outOfFuel =>
      rw [hm] at h
      cases h

theorem bind_done {m : Run α} {f : α → Run β} {s u : State} {a : α} (h : m s = .done a u) :
    (m >>= f) s = f a u := by
  rw [bind_apply, h]

theorem bind_halted {m : Run α} {f : α → Run β} {s u : State} {k : Halt}
    (h : m s = .halted k u) : (m >>= f) s = .halted k u := by
  rw [bind_apply, h]

theorem bind_outOfFuel {m : Run α} {f : α → Run β} {s : State} (h : m s = .outOfFuel) :
    (m >>= f) s = .outOfFuel := by
  rw [bind_apply, h]

theorem read_bind (f : State → α) (g : α → Run β) (s : State) :
    (read f >>= g) s = g (f s) s := rfl

theorem lift_bind_eq_done {e : Except Halt α} {f : α → Run β} {s t : State} {b : β}
    (h : (lift e >>= f) s = .done b t) : ∃ a, e = .ok a ∧ f a s = .done b t := by
  cases e with
  | ok a => exact ⟨a, rfl, h⟩
  | error k => cases h

@[simp] theorem trace_false_apply (line : State → Except Halt String) (s : State) :
    trace false line s = .done () s := rfl

theorem trace_true_apply (line : State → Except Halt String) (s : State) :
    trace true line s = match line s with
      | .ok text => .done () { s with store := s.store.trace text }
      | .error h => .halted h s := rfl

/-- A trace line changes the error stream alone. -/
theorem trace_state {debug : Bool} {line : State → Except Halt String} {s t : State}
    (h : (trace debug line s).state? = some t) :
    ∃ stderr, t = { s with store := { s.store with stderr } } := by
  cases debug with
  | false =>
      cases h
      exact ⟨s.store.stderr, rfl⟩
  | true =>
      rw [trace_true_apply] at h
      cases hl : line s with
      | ok text =>
          rw [hl] at h
          cases h
          exact ⟨_, rfl⟩
      | error k =>
          rw [hl] at h
          cases h
          exact ⟨s.store.stderr, rfl⟩

end Run

end TagScript
