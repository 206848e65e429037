import TagScript.Proofs.Eval.Parts
import TagScript.Proofs.Eval.Watched
import TagScript.Proofs.ReturnSlot.Basic
import TagScript.Proofs.Soundness.Value

set_option autoImplicit false

/-! # Two runs from one state

Runs are compared from states that hold sound values and whose frame is open. Two runs match if they
end in the same way; while the frame is open they are in the same state, and once it has returned
their states may differ in the bindings of loop variables, and in those only if the runs leave loops
at different moments (`Comparison.Near`). A judgement (`Comparison.Safe`) says that two runs match,
that the states they reach are sound, and, where that is asked for, that the first comes to an end.
Results are known to be sound for the size that the heap had then, and stay so. -/

namespace TagScript

/-- What is compared: evaluation under `opts`, and evaluation under `opts'` that is watched by a
    check, in runs of one program. The options may differ in when loops are left. If `total` holds
    then evaluation under `opts` is to come to an end. -/
structure Comparison where
  program : Program
  arguments : List String
  opts : Options
  opts' : Options
  check : Check
  total : Prop
  debug_eq : opts'.debug = opts.debug
  maxCallDepth_eq : opts'.maxCallDepth = opts.maxCallDepth
  whileFree : total → program.WhileFree

namespace Comparison

variable (c : Comparison)

/-- The state is sound, there are `d` calls in progress, and the heap has at least `n` lists. -/
structure Kept (d n : Nat) (s : State) : Prop where
  sound : s.Sound c.program c.arguments
  depth : s.depth = d
  size : n ≤ s.size

/-- The states differ in the bindings of these names at most, and are the same unless the frame has
    returned and the runs leave loops at different moments. -/
structure Near (names : Name → Prop) (s t : State) : Prop extends s.RebindsOnly names t where
  same : s.Open ∨ c.opts.shortCircuitLoops = c.opts'.shortCircuitLoops → t = s

/-- The outcomes of two runs are alike. The states reached are good, and the result has the property
    `Q` in the state that the first run has reached. -/
inductive Matches (names : Name → Prop) (d n : Nat) {α : Type} (Q : α → State → Prop) :
    Outcome State α → Outcome State α → Prop where
  | done {a : α} {t t' : State} : c.Kept d n t → Q a t → c.Near names t t' →
      Matches names d n Q (.done a t) (.done a t')
  | halted {h : Halt} {t t' : State} : c.Kept d n t → c.Near names t t' →
      Matches names d n Q (.halted h t) (.halted h t')
  | outOfFuel {o : Outcome State α} : ¬ c.total → Matches names d n Q .outOfFuel o

/-- The runs match from every good state whose frame is open, and no list is lost. -/
def Safe (names : Name → Prop) (d n : Nat) {α : Type} (m m' : Run α) (Q : α → State → Prop) :
    Prop :=
  ∀ s, c.Kept d n s → s.Open → c.Matches names d s.size Q (m s) (m' s)

/-- The runs match and, if they are done, leave the frame open, the result having the property `P`
    for the size of the heap. -/
def Gives (names : Name → Prop) (d n : Nat) {α : Type} (m m' : Run α) (P : α → Nat → Prop) : Prop :=
  c.Safe names d n m m' fun a t => t.Open ∧ P a t.size

/-- What evaluation gives, if anything, is sound, and then it has left the frame open. -/
def Given (r : Option Value) (t : State) : Prop :=
  ∀ v, r = some v → t.Open ∧ v.Sound c.program c.arguments t.size

/-- The runs match as evaluations of an instruction do. -/
def Evals (names : Name → Prop) (d n : Nat) (m m' : Run (Option Value)) : Prop :=
  c.Safe names d n m m' c.Given

/-- The result of a call is sound, if there is one. -/
def Result (r : Option Value) (k : Nat) : Prop :=
  ∀ v, r = some v → v.Sound c.program c.arguments k

/-- All of the values are sound. -/
def All (vs : List Value) (k : Nat) : Prop := ∀ v ∈ vs, v.Sound c.program c.arguments k

/-- All of the frames are sound. -/
def Frames (frames : List Frame) (k : Nat) : Prop :=
  ∀ f ∈ frames, f.Sound c.program c.arguments k

variable {c} {names : Name → Prop} {d n k : Nat} {α β : Type}

/-! ## Good states -/

theorem Kept.mono {s : State} (h : c.Kept d k s) (hle : n ≤ k) : c.Kept d n s :=
  ⟨h.sound, h.depth, Nat.le_trans hle h.size⟩

/-- A good state is good for the size that its heap has. -/
theorem Kept.atSize {s : State} (h : c.Kept d n s) : c.Kept d s.size s :=
  ⟨h.sound, h.depth, Nat.le_refl _⟩

theorem Kept.bindName {s : State} (h : c.Kept d n s) (name : Name) {v : Value}
    (hv : v.Sound c.program c.arguments s.size) : c.Kept d n (s.bindName name v) where
  sound := ⟨h.sound.frame.bind name hv, h.sound.heap⟩
  depth := h.depth
  size := h.size

/-- The heap may become another sound heap that has no fewer lists. -/
theorem Kept.of_heap {s : State} (h : c.Kept d n s) {store : Store}
    (hheap : store.heap.Sound c.program c.arguments) (hsize : s.size ≤ store.heap.lists.size) :
    c.Kept d n { s with store } where
  sound := ⟨h.sound.frame.mono hsize, hheap⟩
  depth := h.depth
  size := Nat.le_trans h.size hsize

theorem Kept.lock {s : State} (h : c.Kept d n s) (id : Nat) : c.Kept d n (s.lock id) := by
  refine h.of_heap (h.sound.heap.of_items (s.size_lock id) fun other => ?_)
    (Nat.le_of_eq (s.size_lock id).symm)
  exact s.store.heap.items_beginIteration id other

theorem Kept.unlock {s : State} (h : c.Kept d n s) (id : Nat) : c.Kept d n (s.unlock id) := by
  refine h.of_heap (h.sound.heap.of_items (s.size_unlock id) fun other => ?_)
    (Nat.le_of_eq (s.size_unlock id).symm)
  exact s.store.heap.items_endIteration id other

theorem Kept.bindAll {s : State} (h : c.Kept d n s) (name : Name) {vs : List Value}
    (hvs : c.All vs s.size) : c.Kept d n (s.bindAll name vs) := by
  induction vs generalizing s with
  | nil => exact h
  | cons v rest ih =>
      exact ih (h.bindName name (hvs v List.mem_cons_self)) fun w hw =>
        hvs w (List.mem_cons_of_mem v hw)

theorem All.mono {vs : List Value} (h : c.All vs n) (hle : n ≤ k) : c.All vs k :=
  fun v hv => (h v hv).mono hle

theorem Frames.mono {frames : List Frame} (h : c.Frames frames n) (hle : n ≤ k) :
    c.Frames frames k :=
  fun f hf => (h f hf).mono hle

theorem Result.some {v : Value} (h : v.Sound c.program c.arguments k) : c.Result (some v) k := by
  rintro w ⟨⟩
  exact h

theorem Result.none : c.Result none k := by
  rintro w ⟨⟩

/-! ## States that differ in loop variables -/

theorem Near.refl (c : Comparison) (names : Name → Prop) (s : State) : c.Near names s s :=
  ⟨.refl names s, fun _ => rfl⟩

theorem Near.unlock {s t : State} (h : c.Near names s t) (id : Nat) :
    c.Near names (s.unlock id) (t.unlock id) where
  store := by
    simp only [State.unlock, h.store]
  depth := h.depth
  returned := h.returned
  bindings := h.bindings
  same hs := by
    rw [h.same hs]

/-- Once the frame has returned, each run binds the loop variable by its own policy. -/
theorem Near.bindsLater {s t : State} (h : c.Near names s t) (hs : ¬ s.Open) {name : Name}
    (hname : names name) (items : List Value) :
    c.Near names (s.bindAll name (Eval.bindsLater c.opts items))
      (t.bindAll name (Eval.bindsLater c.opts' items)) := by
  have hleft : s.RebindsOnly names (s.bindAll name (Eval.bindsLater c.opts items)) :=
    .bindAll hname _ s
  have hright : t.RebindsOnly names (t.bindAll name (Eval.bindsLater c.opts' items)) :=
    .bindAll hname _ t
  refine ⟨hleft.symm.trans (h.toRebindsOnly.trans hright), ?_⟩
  -- with one policy both runs bind the same values
  rintro (hopen | hpolicy)
  · exact absurd (hleft.open_iff.1 hopen) hs
  · unfold Eval.bindsLater
    rw [h.same (.inr hpolicy), hpolicy]

/-! ## Outcomes -/

theorem Matches.imp {P Q : α → State → Prop} {o o' : Outcome State α}
    (h : c.Matches names d k P o o') (hle : n ≤ k)
    (hPQ : ∀ a t, c.Kept d k t → P a t → Q a t) : c.Matches names d n Q o o' := by
  cases h with
  | done hk hP hnear => exact .done (hk.mono hle) (hPQ _ _ hk hP) hnear
  | halted hk hnear => exact .halted (hk.mono hle) hnear
  | outOfFuel ht => exact .outOfFuel ht

theorem Matches.finished {Q : α → State → Prop} {o o' : Outcome State α}
    (h : c.Matches names d n Q o o') (ht : c.total) : o.finished = true := by
  cases h with
  | done | halted => rfl
  | outOfFuel hn => exact absurd ht hn

theorem Matches.like {Q : α → State → Prop} {o o' : Outcome State α}
    (h : c.Matches names d n Q o o') (ho : o.finished = true) : o.Like (c.Near names) o' := by
  cases h with
  | done _ _ hnear => exact ⟨rfl, hnear⟩
  | halted _ hnear => exact ⟨rfl, hnear⟩
  | outOfFuel => cases ho

/-- Under one policy, runs that match are the same. -/
theorem Matches.eq_of_policy {Q : α → State → Prop} {o o' : Outcome State α}
    (h : c.Matches names d n Q o o')
    (hpolicy : c.opts.shortCircuitLoops = c.opts'.shortCircuitLoops) (ho : o.finished = true) :
    o = o' := by
  cases h with
  | done _ _ hnear => rw [hnear.same (.inr hpolicy)]
  | halted _ hnear => rw [hnear.same (.inr hpolicy)]
  | outOfFuel => cases ho

/-- One run in place of two that are the same. -/
theorem Matches.self {Q : α → State → Prop} {o : Outcome State α}
    (hdone : ∀ a t, o = .done a t → c.Kept d n t ∧ Q a t)
    (hhalted : ∀ h t, o = .halted h t → c.Kept d n t) (hfuel : o ≠ .outOfFuel) :
    c.Matches names d n Q o o := by
  cases o with
  | done a t => exact .done (hdone a t rfl).1 (hdone a t rfl).2 (.refl c names t)
  | halted h t => exact .halted (hhalted h t rfl) (.refl c names t)
  | outOfFuel => exact absurd rfl hfuel

/-! ## Rules -/

namespace Safe

variable {P : α → Nat → Prop} {Q Q' : α → State → Prop}

theorem imp {m m' : Run α} (h : c.Safe names d n m m' Q)
    (hQ : ∀ a t, c.Kept d n t → Q a t → Q' a t) : c.Safe names d n m m' Q' :=
  fun s hs ho => (h s hs ho).imp (Nat.le_refl _) fun a t ht => hQ a t (ht.mono hs.size)

theorem mono {m m' : Run α} (h : c.Safe names d n m m' Q) (hle : n ≤ k) :
    c.Safe names d k m m' Q :=
  fun s hs ho => h s (hs.mono hle) ho

/-- One run after another that leaves the frame open: the second is compared for the size that the
    heap has by then. -/
theorem bind {m m' : Run α} {f f' : α → Run β} {R : β → State → Prop}
    (hm : c.Gives names d n m m' P)
    (hf : ∀ a k, n ≤ k → P a k → c.Safe names d k (f a) (f' a) R) :
    c.Safe names d n (m >>= f) (m' >>= f') R := by
  intro s hs ho
  have h := hm s hs ho
  rw [Run.bind_apply, Run.bind_apply]
  generalize m s = o at h ⊢
  generalize m' s = o' at h ⊢
  cases h with
  | @done a t t' hk hQ hnear =>
      -- the frame is open, so the second parts start in one state
      obtain ⟨hopen, hP⟩ := hQ
      obtain rfl := hnear.same (.inl hopen)
      have hn := Nat.le_trans hs.size hk.size
      exact (hf a _ hn hP t' hk.atSize hopen).imp hk.size fun _ _ _ hR => hR
  | halted hk hnear => exact .halted hk hnear
  | outOfFuel ht => exact .outOfFuel ht

theorem halt (h : Halt) : c.Safe names d n (Run.halt h : Run α) (Run.halt h) Q :=
  fun s hs _ => .halted hs.atSize (.refl c names s)

theorem located (span : Option Span) {m m' : Run α} (h : c.Safe names d n m m' Q) :
    c.Safe names d n (Run.located span m) (Run.located span m') Q := by
  intro s hs ho
  have hm := h s hs ho
  unfold Run.located
  generalize m s = o at hm ⊢
  generalize m' s = o' at hm ⊢
  cases hm with
  | done hk hQ hnear => exact .done hk hQ hnear
  | halted hk hnear => exact .halted hk hnear
  | outOfFuel ht => exact .outOfFuel ht

/-- The frame returns. -/
theorem signalReturn {v : Value} (hv : v.Sound c.program c.arguments n) :
    c.Safe names d n (Run.signalReturn v) (Run.signalReturn v) fun _ _ => True := by
  intro s hs _
  refine .done ⟨⟨⟨hs.sound.frame.bindings, ?_⟩, hs.sound.heap⟩, hs.depth, Nat.le_refl _⟩ trivial
    (.refl c names _)
  rintro w ⟨⟩
  exact hv.mono hs.size

theorem iterating (id : Nat) {m m' : Run Unit} (h : c.Safe names d n m m' fun _ _ => True) :
    c.Safe names d n (Run.iterating id m) (Run.iterating id m') fun _ _ => True := by
  intro s hs ho
  have hm := h (s.lock id) (hs.lock id) ho
  rw [State.size_lock] at hm
  rw [Run.iterating_apply, Run.iterating_apply]
  generalize m (s.lock id) = o at hm ⊢
  generalize m' (s.lock id) = o' at hm ⊢
  cases hm with
  | done hk _ hnear => exact .done (hk.unlock id) trivial (hnear.unlock id)
  | halted hk hnear => exact .halted (hk.unlock id) (hnear.unlock id)
  | outOfFuel ht => exact .outOfFuel ht

end Safe

namespace Gives

variable {P : α → Nat → Prop}

theorem pure (a : α) (h : ∀ k, n ≤ k → P a k) :
    c.Gives names d n (Pure.pure a) (Pure.pure a) P :=
  fun s hs ho => .done hs.atSize ⟨ho, h _ hs.size⟩ (.refl c names s)

theorem lift (e : Except Halt α) (h : ∀ a k, n ≤ k → e = .ok a → P a k) :
    c.Gives names d n (Run.lift e) (Run.lift e) P := by
  cases e with
  | ok a => exact pure a fun k hk => h a k hk rfl
  | error k => exact Safe.halt k

theorem read (f : State → α) (h : ∀ s, c.Kept d n s → s.Open → P (f s) s.size) :
    c.Gives names d n (Run.read f) (Run.read f) P :=
  fun s hs ho => .done hs.atSize ⟨ho, h s hs ho⟩ (.refl c names s)

theorem heap : c.Gives names d n (Run.read (·.store.heap)) (Run.read (·.store.heap))
    fun _ _ => True :=
  read _ fun _ _ _ => trivial

theorem bindName (name : Name) {v : Value} (hv : v.Sound c.program c.arguments n) :
    c.Gives names d n (Run.bindName name v) (Run.bindName name v) fun _ _ => True :=
  fun _ hs ho => .done (hs.atSize.bindName name (hv.mono hs.size)) ⟨ho, trivial⟩ (.refl c names _)

/-- A change of the store that keeps the heap sound. -/
theorem onStore (f : Store → Except Halt (α × Store))
    (h : ∀ (s t : Store) a, s.heap.Sound c.program c.arguments → n ≤ s.heap.lists.size →
      f s = .ok (a, t) → t.heap.Sound c.program c.arguments ∧
        s.heap.lists.size ≤ t.heap.lists.size ∧ P a t.heap.lists.size) :
    c.Gives names d n (Run.onStore f) (Run.onStore f) P := by
  intro s hs ho
  unfold Run.onStore
  cases hf : f s.store with
  | error k => exact .halted hs.atSize (.refl c names s)
  | ok r =>
      obtain ⟨a, t⟩ := r
      obtain ⟨hheap, hsize, hP⟩ := h s.store t a hs.sound.heap hs.size hf
      exact .done (hs.atSize.of_heap hheap hsize) ⟨ho, hP⟩ (.refl c names _)

theorem onHeap (f : Heap → Except Halt Heap)
    (h : ∀ k l : Heap, k.Sound c.program c.arguments → n ≤ k.lists.size → f k = .ok l →
      l.Sound c.program c.arguments ∧ k.lists.size ≤ l.lists.size) :
    c.Gives names d n (Run.onHeap f) (Run.onHeap f) fun _ _ => True := by
  refine onStore _ fun s t a hs hn hok => ?_
  obtain ⟨l, hl, heq⟩ := except_map_ok hok
  cases heq
  obtain ⟨hsound, hsize⟩ := h s.heap l hs hn hl
  exact ⟨hsound, hsize, trivial⟩

theorem trace {debug debug' : Bool} (hdebug : debug' = debug)
    (line : State → Except Halt String) :
    c.Gives names d n (Run.trace debug line) (Run.trace debug' line) fun _ _ => True := by
  subst hdebug
  intro s hs ho
  have hkept : ∀ t, (Run.trace debug' line s).state? = some t → c.Kept d s.size t ∧ t.Open := by
    intro t ht
    obtain ⟨stderr, rfl⟩ := Run.trace_state ht
    exact ⟨hs.atSize.of_heap hs.sound.heap (Nat.le_refl _), ho⟩
  refine .self (fun _ t h => ?_) (fun _ t h => ?_) ?_
  · obtain ⟨hk, hopen⟩ := hkept t (by rw [h]; rfl)
    exact ⟨hk, hopen, trivial⟩
  · exact (hkept t (by rw [h]; rfl)).1
  · cases debug' with
    | false =>
        rw [Run.trace_false_apply]
        rintro ⟨⟩
    | true =>
        rw [Run.trace_true_apply]
        split <;> rintro ⟨⟩

/-- A run in a frame of its own: its loop variables go with the frame. -/
theorem inFrame {frame : Frame} (hframe : frame.Sound c.program c.arguments n)
    (hopen : frame.returned = none) {m m' : Run Unit} {inner : Name → Prop}
    (h : c.Safe inner (d + 1) n m m' fun _ _ => True) :
    c.Gives names d n (Run.inFrame frame m) (Run.inFrame frame m') c.Result := by
  intro s hs ho
  have hin : c.Kept (d + 1) n { s with frame, depth := s.depth + 1 } :=
    ⟨⟨hframe.mono hs.size, hs.sound.heap⟩, by rw [← hs.depth], hs.size⟩
  -- the frame of the caller is left behind, and stays sound because the heap only grows
  have hback : ∀ t, c.Kept (d + 1) s.size t →
      c.Kept d s.size { t with frame := s.frame, depth := t.depth - 1 } := fun t ht =>
    ⟨⟨hs.sound.frame.mono ht.size, ht.sound.heap⟩, by rw [ht.depth, Nat.add_sub_cancel], ht.size⟩
  have hsame : ∀ t t' : State, c.Near inner t t' →
      c.Near names { t with frame := s.frame, depth := t.depth - 1 }
        { t' with frame := s.frame, depth := t'.depth - 1 } := by
    intro t t' hnear
    rw [hnear.store, hnear.depth]
    exact .refl c names _
  have hm := h _ hin hopen
  unfold Run.inFrame
  generalize m { s with frame, depth := s.depth + 1 } = o at hm ⊢
  generalize m' { s with frame, depth := s.depth + 1 } = o' at hm ⊢
  cases hm with
  | @done a t t' hk _ hnear =>
      show c.Matches names d s.size _ (.done t.frame.returned _) (.done t'.frame.returned _)
      rw [hnear.returned]
      exact .done (hback t hk) ⟨ho, fun v hv => hk.sound.frame.returned v hv⟩ (hsame t t' hnear)
  | @halted e t t' hk hnear => exact .halted (hback t hk) (hsame t t' hnear)
  | outOfFuel ht => exact .outOfFuel ht

end Gives

end Comparison

end TagScript
