import TagScript.Proofs.Eval.Watched
import TagScript.Proofs.Safety.Value
import TagScript.Proofs.Shape.Analysis

set_option autoImplicit false

/-! # Safe runs

A run of a program whose instructions are all shaped is *safe*: from a state that holds proper
values it comes to such a state, or halts in an ordinary way, or lacks fuel. The judgement
(`Watch.Safe`) is about a run and the same run with an alarm, which have to do the same. Results are
known to be proper for the size that the heap had then, and stay so. -/

namespace TagScript

/-- All values of the innermost frame and of the heap are proper. -/
structure State.Proper (p : Program) (arguments : List String) (s : State) : Prop where
  frame : s.frame.Each fun v => v.Proper p arguments s.size
  heap : s.store.heap.Each fun v => v.Proper p arguments s.size

/-- What is watched: the runs of a program all of whose instructions are shaped, and the check that
    raises the alarm when it fails. -/
structure Watch where
  program : Program
  arguments : List String
  opts : Options
  check : Check
  alarm : Halt
  shaped : program.Shaped

namespace Watch

variable (w : Watch)

/-- The state is proper, and the heap has at least `n` lists. -/
structure Kept (n : Nat) (s : State) : Prop where
  proper : s.Proper w.program w.arguments
  size : n ≤ s.size

/-- The outcome is safe: the state that was reached is proper, the result has the property `Q` for
    the size of the heap, and a run that halts does so in an ordinary way. -/
inductive Ends {α : Type} (n : Nat) (Q : α → Nat → Prop) : Outcome State α → Prop where
  | done {a : α} {t : State} : w.Kept n t → Q a t.size → Ends n Q (.done a t)
  | halted {h : Halt} {t : State} : w.Kept n t → h.Ordinary → Ends n Q (.halted h t)
  | outOfFuel : Ends n Q .outOfFuel

/-- From every proper state the run is safe, and the other run does the same. -/
def Safe {α : Type} (n : Nat) (m m' : Run α) (Q : α → Nat → Prop) : Prop :=
  ∀ s, w.Kept n s → w.Ends s.size Q (m s) ∧ m' s = m s

/-- The value is proper. -/
def Good (v : Value) (k : Nat) : Prop := v.Proper w.program w.arguments k

/-- All of the values are proper. -/
def All (vs : List Value) (k : Nat) : Prop := ∀ v ∈ vs, w.Good v k

/-- The result is proper, if there is one. -/
def Result (r : Option Value) (k : Nat) : Prop := ∀ v, r = some v → w.Good v k

/-- All values of the frames are proper. -/
def Frames (frames : List Frame) (k : Nat) : Prop := ∀ f ∈ frames, f.Each (w.Good · k)

variable {w} {α β : Type} {n k : Nat}

/-! ## Proper states -/

theorem Kept.mono {s : State} (h : w.Kept k s) (hle : n ≤ k) : w.Kept n s :=
  ⟨h.proper, Nat.le_trans hle h.size⟩

/-- A proper state is kept for the size that its heap has. -/
theorem Kept.atSize {s : State} (h : w.Kept n s) : w.Kept s.size s := ⟨h.proper, Nat.le_refl _⟩

/-- The heap may become another heap of proper values that has no fewer lists. -/
theorem Kept.of_heap {s : State} (h : w.Kept n s) {store : Store}
    (hheap : store.heap.Each (w.Good · store.heap.lists.size))
    (hsize : s.size ≤ store.heap.lists.size) : w.Kept n { s with store } where
  proper := ⟨h.proper.frame.imp fun _ hv => hv.mono hsize, hheap⟩
  size := Nat.le_trans h.size hsize

theorem Kept.lock {s : State} (h : w.Kept n s) (id : Nat) : w.Kept n (s.lock id) := by
  refine h.of_heap ?_ (Nat.le_of_eq (s.size_lock id).symm)
  refine Heap.Each.of_items (h.proper.heap.imp fun _ hv => ?_)
    (s.store.heap.items_beginIteration id)
  exact hv.mono (Nat.le_of_eq (s.size_lock id).symm)

theorem Kept.unlock {s : State} (h : w.Kept n s) (id : Nat) : w.Kept n (s.unlock id) := by
  refine h.of_heap ?_ (Nat.le_of_eq (s.size_unlock id).symm)
  refine Heap.Each.of_items (h.proper.heap.imp fun _ hv => ?_)
    (s.store.heap.items_endIteration id)
  exact hv.mono (Nat.le_of_eq (s.size_unlock id).symm)

theorem Good.mono {v : Value} (h : w.Good v n) (hle : n ≤ k) : w.Good v k :=
  Value.Proper.mono h hle

theorem All.mono {vs : List Value} (h : w.All vs n) (hle : n ≤ k) : w.All vs k :=
  fun v hv => (h v hv).mono hle

theorem Frames.mono {frames : List Frame} (h : w.Frames frames n) (hle : n ≤ k) :
    w.Frames frames k :=
  fun f hf => (h f hf).imp fun _ hv => hv.mono hle

theorem Frames.cons {f : Frame} {outer : List Frame} (hf : f.Each (w.Good · k))
    (h : w.Frames outer k) : w.Frames (f :: outer) k := by
  intro g hg
  rcases List.mem_cons.1 hg with rfl | hg
  · exact hf
  · exact h g hg

theorem Result.some {v : Value} (h : w.Good v k) : w.Result (some v) k := by
  rintro x ⟨⟩
  exact h

theorem Result.none : w.Result none k := by
  rintro x ⟨⟩

/-! ## Rules -/

theorem Ends.imp {P Q : α → Nat → Prop} {o : Outcome State α} (h : w.Ends k P o) (hle : n ≤ k)
    (hPQ : ∀ a l, k ≤ l → P a l → Q a l) : w.Ends n Q o := by
  cases h with
  | done hk hP => exact .done (hk.mono hle) (hPQ _ _ hk.size hP)
  | halted hk hh => exact .halted (hk.mono hle) hh
  | outOfFuel => exact .outOfFuel

namespace Safe

variable {P Q : α → Nat → Prop}

theorem mono {m m' : Run α} (h : w.Safe n m m' Q) (hle : n ≤ k) : w.Safe k m m' Q :=
  fun s hs => h s (hs.mono hle)

theorem pure (a : α) (h : ∀ k, n ≤ k → Q a k) : w.Safe n (Pure.pure a) (Pure.pure a) Q :=
  fun _ hs => ⟨.done hs.atSize (h _ hs.size), rfl⟩

theorem none : w.Safe n (Pure.pure none) (Pure.pure none) w.Result := pure _ fun _ _ => .none

theorem halt {h : Halt} (hh : h.Ordinary) : w.Safe n (Run.halt h : Run α) (Run.halt h) Q :=
  fun _ hs => ⟨.halted hs.atSize hh, rfl⟩

theorem exhausted : w.Safe n (Run.exhausted : Run α) Run.exhausted Q :=
  fun _ _ => ⟨.outOfFuel, rfl⟩

/-- One run after another: the second is safe for the size that the heap has by then. -/
theorem bind {m m' : Run α} {f f' : α → Run β} {R : β → Nat → Prop} (hm : w.Safe n m m' P)
    (hf : ∀ a k, n ≤ k → P a k → w.Safe k (f a) (f' a) R) :
    w.Safe n (m >>= f) (m' >>= f') R := by
  intro s hs
  obtain ⟨hends, hsame⟩ := hm s hs
  rw [Run.bind_apply, Run.bind_apply, hsame]
  generalize m s = o at hends ⊢
  cases hends with
  | @done a t hk hP =>
      obtain ⟨hends, hsame⟩ := hf a t.size (Nat.le_trans hs.size hk.size) hP t hk.atSize
      exact ⟨hends.imp hk.size fun _ _ _ hR => hR, hsame⟩
  | halted hk hh => exact ⟨.halted hk hh, rfl⟩
  | outOfFuel => exact ⟨.outOfFuel, rfl⟩

/-- A run of which no value is given. -/
theorem thenNone {m m' : Run Unit} (h : w.Safe n m m' fun _ _ => True) :
    w.Safe n (m >>= fun _ => Pure.pure Option.none) (m' >>= fun _ => Pure.pure Option.none)
      w.Result :=
  bind h fun _ _ _ _ => none

theorem lift {e : Except Halt α} (he : Meets (fun a => ∀ k, n ≤ k → Q a k) e) :
    w.Safe n (Run.lift e) (Run.lift e) Q := by
  cases e with
  | ok a => exact pure a he
  | error h => exact halt he

theorem read (f : State → α) (h : ∀ s, w.Kept n s → Q (f s) s.size) :
    w.Safe n (Run.read f) (Run.read f) Q :=
  fun s hs => ⟨.done hs.atSize (h s hs), rfl⟩

theorem frame : w.Safe n (Run.read (·.frame)) (Run.read (·.frame)) fun f k =>
    f.Each (w.Good · k) :=
  read _ fun _ hs => hs.proper.frame

theorem bindName (name : Name) {v : Value} (hv : w.Good v n) :
    w.Safe n (Run.bindName name v) (Run.bindName name v) fun _ _ => True := by
  intro s hs
  refine ⟨.done ⟨⟨?_, hs.proper.heap⟩, Nat.le_refl _⟩ trivial, rfl⟩
  exact hs.proper.frame.bind name (hv.mono hs.size)

theorem signalReturn {v : Value} (hv : w.Good v n) :
    w.Safe n (Run.signalReturn v) (Run.signalReturn v) fun _ _ => True := by
  intro s hs
  refine ⟨.done ⟨⟨⟨hs.proper.frame.bindings, ?_⟩, hs.proper.heap⟩, Nat.le_refl _⟩ trivial, rfl⟩
  rintro x ⟨⟩
  exact hv.mono hs.size

/-- A change of the store that keeps the values of the heap proper. -/
theorem onStore (f : Store → Except Halt (α × Store))
    (h : ∀ s : Store, s.heap.Each (w.Good · s.heap.lists.size) → n ≤ s.heap.lists.size →
      Meets (fun r => r.2.heap.Each (w.Good · r.2.heap.lists.size) ∧
        s.heap.lists.size ≤ r.2.heap.lists.size ∧ Q r.1 r.2.heap.lists.size) (f s)) :
    w.Safe n (Run.onStore f) (Run.onStore f) Q := by
  intro s hs
  refine ⟨?_, rfl⟩
  have hf := h s.store hs.proper.heap hs.size
  unfold Run.onStore
  generalize f s.store = r at hf ⊢
  cases r with
  | error e => exact .halted hs.atSize hf
  | ok r =>
      obtain ⟨a, t⟩ := r
      obtain ⟨hheap, hsize, hQ⟩ := hf
      exact .done (hs.atSize.of_heap hheap hsize) hQ

/-- A change of the items of a list. -/
theorem onHeap (f : Heap → Except Halt Heap)
    (h : ∀ heap : Heap, heap.Each (w.Good · heap.lists.size) → n ≤ heap.lists.size →
      Meets (fun k => k.Each (w.Good · heap.lists.size) ∧ k.lists.size = heap.lists.size)
        (f heap)) :
    w.Safe n (Run.onHeap f) (Run.onHeap f) fun _ _ => True := by
  refine onStore _ fun s hs hn => (h s.heap hs hn).map fun heap hk => ?_
  obtain ⟨heach, hsize⟩ := hk
  refine ⟨?_, Nat.le_of_eq hsize.symm, trivial⟩
  exact heach.imp fun _ hv => hv.mono (Nat.le_of_eq hsize.symm)

theorem trace (debug : Bool) (line : State → Except Halt String)
    (h : ∀ s, w.Kept n s → Meets (fun _ => True) (line s)) :
    w.Safe n (Run.trace debug line) (Run.trace debug line) fun _ _ => True := by
  cases debug with
  | false => exact pure () fun _ _ => trivial
  | true =>
      intro s hs
      refine ⟨?_, rfl⟩
      have hline := h s hs
      rw [Run.trace_true_apply]
      generalize line s = r at hline ⊢
      cases r with
      | error e => exact .halted hs.atSize hline
      | ok text => exact .done (hs.atSize.of_heap hs.proper.heap (Nat.le_refl _)) trivial

theorem located (span : Option Span) {m m' : Run α} (h : w.Safe n m m' Q) :
    w.Safe n (Run.located span m) (Run.located span m') Q := by
  intro s hs
  obtain ⟨hends, hsame⟩ := h s hs
  unfold Run.located
  rw [hsame]
  generalize m s = o at hends ⊢
  cases hends with
  | done hk hQ => exact ⟨.done hk hQ, rfl⟩
  | halted hk hh => exact ⟨.halted hk (hh.locate span), rfl⟩
  | outOfFuel => exact ⟨.outOfFuel, rfl⟩

theorem iterating (id : Nat) {m m' : Run Unit} (h : w.Safe n m m' fun _ _ => True) :
    w.Safe n (Run.iterating id m) (Run.iterating id m') fun _ _ => True := by
  intro s hs
  obtain ⟨hends, hsame⟩ := h (s.lock id) (hs.lock id)
  rw [State.size_lock] at hends
  rw [Run.iterating_apply, Run.iterating_apply, hsame]
  generalize m (s.lock id) = o at hends ⊢
  cases hends with
  | done hk _ => exact ⟨.done (hk.unlock id) trivial, rfl⟩
  | halted hk hh => exact ⟨.halted (hk.unlock id) hh, rfl⟩
  | outOfFuel => exact ⟨.outOfFuel, rfl⟩

/-- The frame of the caller is as it was, and proper for the heap that the call has left. -/
theorem inFrame {frame : Frame} (hframe : frame.Each (w.Good · n)) {m m' : Run Unit}
    (h : w.Safe n m m' fun _ _ => True) :
    w.Safe n (Run.inFrame frame m) (Run.inFrame frame m') w.Result := by
  intro s hs
  have hcaller : ∀ {t : State}, w.Kept s.size t →
      w.Kept s.size { t with frame := s.frame, depth := t.depth - 1 } := fun hk =>
    ⟨⟨hs.proper.frame.imp fun _ hv => hv.mono hk.size, hk.proper.heap⟩, hk.size⟩
  have hstart : w.Kept n { s with frame, depth := s.depth + 1 } :=
    ⟨⟨hframe.imp fun _ hv => hv.mono hs.size, hs.proper.heap⟩, hs.size⟩
  obtain ⟨hends, hsame⟩ := h _ hstart
  unfold Run.inFrame
  rw [hsame]
  generalize m { s with frame, depth := s.depth + 1 } = o at hends ⊢
  cases hends with
  | done hk _ => exact ⟨.done (hcaller hk) hk.proper.frame.returned, rfl⟩
  | halted hk hh => exact ⟨.halted (hcaller hk) hh, rfl⟩
  | outOfFuel => exact ⟨.outOfFuel, rfl⟩

end Safe

end Watch

end TagScript
