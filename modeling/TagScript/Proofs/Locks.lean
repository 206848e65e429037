import TagScript.Proofs.Eval.Fuel
import TagScript.Proofs.Eval.Native
import TagScript.Proofs.Eval.Rounds
import TagScript.Proofs.Eval.Watched

set_option autoImplicit false

/-! # Iteration locks

A list that is being iterated counts the iterations over it and refuses to change. Evaluation gives
back every lock that it takes, however it ends, and leaves the items of locked lists alone
(`Heap.Balanced`, `Run.Balanced.congruence`). Hence nothing that a loop over a list comes to
evaluate changes that list, and after a run all lists can be changed again. -/

namespace TagScript

/-! ## Heaps before and after -/

namespace Heap

/-- The heap `k` can be what a run that started in the heap `h` leaves: no list is lost, the
    iterations in progress are the same, new lists have none, and the items of a list that was being
    iterated are the same. -/
structure Balanced (h k : Heap) : Prop where
  grows : h.lists.size ≤ k.lists.size
  counters : ∀ id < h.lists.size, k.iterations id = h.iterations id
  fresh : ∀ id, h.lists.size ≤ id → k.iterations id = 0
  locked : ∀ id, 0 < h.iterations id → k.items id = h.items id

theorem iterations_of_size_le (h : Heap) {id : Nat} (hid : h.lists.size ≤ id) :
    h.iterations id = 0 := by
  simp [iterations, Array.getElem?_eq_none hid]

theorem beginIteration_of_size_le (h : Heap) {id : Nat} (hid : h.lists.size ≤ id) :
    h.beginIteration id = h := by
  obtain ⟨lists⟩ := h
  simp only [beginIteration, Heap.mk.injEq]
  apply Array.ext
  · simp
  · intro i _ hi
    have hne : id ≠ i := by
      simp only at hid hi
      omega
    rw [Array.getElem_modify, if_neg hne]

theorem iterations_le_beginIteration (h : Heap) (id other : Nat) :
    h.iterations other ≤ (h.beginIteration id).iterations other := by
  by_cases hid : id < h.lists.size
  · rw [h.iterations_beginIteration id other hid]
    omega
  · have hsame := beginIteration_of_size_le h (Nat.le_of_not_lt hid)
    exact Nat.le_of_eq (by rw [hsame])

/-- A closed iteration counts for its list alone. -/
theorem iterations_endIteration (h : Heap) (id other : Nat) :
    (h.endIteration id).iterations other
      = h.iterations other - if other = id then 1 else 0 := by
  simp only [iterations, endIteration, Array.getElem?_modify]
  by_cases ho : other = id
  · subst ho
    cases h.lists[other]? <;> simp
  · simp [ho, Ne.symm ho]

namespace Balanced

theorem iterations_eq {h k : Heap} (b : Balanced h k) (id : Nat) :
    k.iterations id = h.iterations id := by
  by_cases hid : id < h.lists.size
  · exact b.counters id hid
  · rw [b.fresh id (by omega), h.iterations_of_size_le (by omega)]

/-- A heap is balanced with respect to another if the counters and the locked lists are the same,
    whether the lists existed before or not. -/
theorem of_iterations {h k : Heap} (hsize : h.lists.size ≤ k.lists.size)
    (hcount : ∀ id, k.iterations id = h.iterations id)
    (hlocked : ∀ id, 0 < h.iterations id → k.items id = h.items id) : Balanced h k where
  grows := hsize
  counters id _ := hcount id
  fresh id hid := by rw [hcount, h.iterations_of_size_le hid]
  locked := hlocked

theorem refl (h : Heap) : Balanced h h :=
  of_iterations (Nat.le_refl _) (fun _ => rfl) fun _ _ => rfl

theorem trans {h k l : Heap} (b : Balanced h k) (c : Balanced k l) : Balanced h l := by
  refine of_iterations (Nat.le_trans b.grows c.grows) (fun id => ?_) fun id hid => ?_
  · rw [c.iterations_eq, b.iterations_eq]
  · rw [c.locked id (by rwa [b.iterations_eq]), b.locked id hid]

/-! ### Single changes -/

theorem alloc (h : Heap) (items : List Value) : Balanced h (h.alloc items).2 := by
  have hlists : ∀ id, (h.alloc items).2.lists[id]?
      = if id = h.lists.size then some ⟨items.toArray, 0⟩ else h.lists[id]? :=
    fun id => Array.getElem?_push
  refine of_iterations (by simp [Heap.alloc]) (fun id => ?_) fun id hid => ?_
  · by_cases hnew : id = h.lists.size
    · rw [h.iterations_of_size_le (by omega)]
      simp [iterations, hlists, hnew]
    · simp [iterations, hlists, hnew]
  · have hold : id ≠ h.lists.size := by
      rintro rfl
      rw [h.iterations_of_size_le (Nat.le_refl _)] at hid
      omega
    simp [Heap.items, hlists, hold]

/-- The items of a list that is not being iterated may change. -/
theorem mapItems {h : Heap} {id : Nat} (hid : h.iterations id = 0)
    (f : Array Value → Array Value) : Balanced h (h.mapItems id f) := by
  refine of_iterations (by simp [Heap.mapItems]) (fun other => by simp) fun other ho => ?_
  have hne : id ≠ other := by
    rintro rfl
    omega
  simp [Heap.items, Heap.mapItems, Array.getElem?_modify, hne]

theorem of_checkMutable {h : Heap} {op : String} {id : Nat} {u : Unit}
    (hok : h.checkMutable op id = .ok u) : h.iterations id = 0 := by
  unfold checkMutable at hok
  split at hok
  · assumption
  · cases hok

theorem set {h k : Heap} {op : String} {id : Nat} {index : Int} {v : Value}
    (hok : h.set op id index v = .ok k) : Balanced h k := by
  obtain ⟨_, hm, hok⟩ := except_bind_ok hok
  obtain ⟨i, _, hok⟩ := except_bind_ok hok
  cases hok
  exact mapItems (of_checkMutable hm) _

theorem push {h k : Heap} {op : String} {id : Nat} {v : Value}
    (hok : h.push op id v = .ok k) : Balanced h k := by
  obtain ⟨_, hm, hok⟩ := except_bind_ok hok
  cases hok
  exact mapItems (of_checkMutable hm) _

theorem pop {h k : Heap} {op : String} {id : Nat} {v : Value}
    (hok : h.pop op id = .ok (v, k)) : Balanced h k := by
  obtain ⟨_, hm, hok⟩ := except_bind_ok hok
  split at hok
  · cases hok
    exact mapItems (of_checkMutable hm) _
  · cases hok

/-- What goes on while an iteration is open is balanced once it is closed. -/
theorem iteration {h k : Heap} {id : Nat} (b : Balanced (h.beginIteration id) k) :
    Balanced h (k.endIteration id) := by
  by_cases hid : id < h.lists.size
  · -- meanwhile the counter of the list is one higher, and locks that were there stay
    refine of_iterations ?_ (fun other => ?_) fun other ho => ?_
    · have hgrows := b.grows
      simp only [beginIteration, Array.size_modify] at hgrows
      simpa [endIteration] using hgrows
    · rw [iterations_endIteration, b.iterations_eq, h.iterations_beginIteration id other hid]
      omega
    · have hopen : 0 < (h.beginIteration id).iterations other := by
        rw [h.iterations_beginIteration id other hid]
        omega
      rw [items_endIteration, b.locked other hopen, items_beginIteration]
  · -- the list may have been made meanwhile: its counter is zero, and closing leaves it so
    rw [beginIteration_of_size_le h (by omega)] at b
    refine of_iterations ?_ (fun other => ?_) fun other ho => ?_
    · simpa [endIteration] using b.grows
    · rw [iterations_endIteration, b.iterations_eq]
      by_cases ho : other = id
      · rw [ho, h.iterations_of_size_le (by omega), Nat.zero_sub]
      · rw [if_neg ho, Nat.sub_zero]
    · rw [items_endIteration, b.locked other ho]

end Balanced

end Heap

/-! ## Runs -/

/-- No native function changes a list that is being iterated. -/
theorem Native.Does.balanced {f : Native} {args : List Value} {s t : Store} {r : Option Value}
    (h : Native.Does s f args r t) : s.heap.Balanced t.heap := by
  cases h with
  | print | printLine | input | toAscii | fromAscii | arrayGet | arrayLength | readFile =>
      exact .refl _
  | split | splitWords | getArgs => exact .alloc _ _
  | arraySet _ _ _ _ h => exact .set h
  | arrayPush _ _ _ h => exact .push h
  | arrayPop _ _ _ h => exact .pop h

/-- However the run ends, the heap is balanced with respect to the one it started in. -/
def Run.Balanced {α : Type} (m : Run α) : Prop :=
  ∀ s t, (m s).state? = some t → s.store.heap.Balanced t.store.heap

namespace Run.Balanced

variable {α β : Type}

/-- A run that leaves the heap as it is. -/
theorem of_heap_eq {m : Run α}
    (h : ∀ s t, (m s).state? = some t → t.store.heap = s.store.heap) : m.Balanced := by
  intro s t ht
  rw [h s t ht]
  exact .refl _

theorem of_onStore {f : Store → Except Halt (α × Store)}
    (h : ∀ s a t, f s = .ok (a, t) → s.heap.Balanced t.heap) : (Run.onStore f).Balanced := by
  intro s t ht
  unfold Run.onStore at ht
  split at ht
  · rename_i a store hok
    cases ht
    exact h _ _ _ hok
  · cases ht
    exact .refl _

theorem of_onHeap {f : Heap → Except Halt Heap} (h : ∀ k l, f k = .ok l → k.Balanced l) :
    (Run.onHeap f).Balanced := by
  refine of_onStore fun s a t hok => ?_
  cases hf : f s.heap with
  | error e =>
      rw [hf] at hok
      cases hok
  | ok k =>
      rw [hf] at hok
      cases hok
      exact h _ _ hf

theorem bind {m : Run α} {f : α → Run β} (hm : m.Balanced) (hf : ∀ a, (f a).Balanced) :
    (m >>= f).Balanced := by
  intro s t ht
  rw [bind_apply] at ht
  cases h : m s with
  | done a u =>
      rw [h] at ht
      exact (hm s u (by rw [h]; rfl)).trans (hf a u t ht)
  | halted k u =>
      rw [h] at ht
      exact hm s t (by rw [h]; exact ht)
  | outOfFuel =>
      rw [h] at ht
      cases ht

theorem trace (debug : Bool) (line : State → Except Halt String) :
    (Run.trace debug line).Balanced := by
  refine of_heap_eq fun s t ht => ?_
  obtain ⟨stderr, rfl⟩ := trace_state ht
  rfl

theorem located (span : Option Span) {m : Run α} (hm : m.Balanced) :
    (Run.located span m).Balanced := by
  intro s t ht
  apply hm s t
  unfold Run.located at ht
  cases h : m s <;> rw [h] at ht <;> exact ht

theorem iterating (id : Nat) {m : Run α} (hm : m.Balanced) : (Run.iterating id m).Balanced := by
  intro s t ht
  unfold Run.iterating at ht
  rw [Outcome.state?_mapState] at ht
  obtain ⟨u, hu, rfl⟩ := Option.map_eq_some_iff.1 ht
  exact (hm _ u hu).iteration

theorem inFrame (frame : Frame) {m : Run Unit} (hm : m.Balanced) :
    (Run.inFrame frame m).Balanced := by
  intro s t ht
  have hin := hm { s with frame, depth := s.depth + 1 }
  unfold Run.inFrame at ht
  cases h : m { s with frame, depth := s.depth + 1 } with
  | done a u =>
      rw [h] at ht
      cases ht
      exact hin u (by rw [h]; rfl)
  | halted k u =>
      rw [h] at ht
      cases ht
      exact hin u (by rw [h]; rfl)
  | outOfFuel =>
      rw [h] at ht
      cases ht

/-- Every part of an evaluation gives back the locks that it takes. -/
theorem congruence (opts : Options) : Congruence opts opts fun _ m _ => m.Balanced where
  pure _ := of_heap_eq fun _ _ ht => by cases ht; rfl
  bind := bind
  halt _ := of_heap_eq fun _ _ ht => by cases ht; rfl
  exhausted _ := of_heap_eq fun _ _ ht => by cases ht
  read _ := of_heap_eq fun _ _ ht => by cases ht; rfl
  bindName _ _ := of_heap_eq fun _ _ ht => by cases ht; rfl
  signalReturn _ := of_heap_eq fun _ _ ht => by cases ht; rfl
  newList _ := of_onStore fun _ _ _ hok => by cases hok; exact .alloc _ _
  setItem _ _ _ _ := of_onHeap fun _ _ => .set
  pushItem _ _ _ := of_onHeap fun _ _ => .push
  effect _ _ := of_onStore fun _ _ _ hok => (Native.does_of_effect hok).balanced
  writeTo _ _ _ := of_heap_eq fun _ _ ht => by
    obtain ⟨files, rfl⟩ := Native.writeTo_state ht
    rfl
  trace _ := trace _ _
  located span := located span
  iterating id := iterating id
  inFrame frame := inFrame frame
  deeper h _ := by
    split
    · exact of_heap_eq fun _ _ ht => by cases ht; rfl
    · exact h
  policy := rfl

end Run.Balanced

/-! ## What happens to a locked list -/

/-- The list is being iterated and has these items. -/
def State.Holds (id : Nat) (items : Array Value) (s : State) : Prop :=
  0 < s.store.heap.iterations id ∧ s.store.heap.items id = items

theorem State.Holds.of_balanced {id : Nat} {items : Array Value} {s t : State}
    (hs : s.Holds id items) (b : s.store.heap.Balanced t.store.heap) : t.Holds id items :=
  ⟨by rw [b.iterations_eq]; exact hs.1, by rw [b.locked id hs.1]; exact hs.2⟩

/-- The evaluation of an instruction finds and leaves the list with these items. -/
def Check.keeps (id : Nat) (items : Array Value) : Check := fun _ _ s o =>
  s.store.heap.items id = items ∧ ∀ t, o.state? = some t → t.store.heap.items id = items

/-- The first run gives back its locks, and where the list is locked the second goes the same
    way. -/
def Run.FollowedBy {α : Type} (id : Nat) (items : Array Value) (m m' : Run α) : Prop :=
  m.Balanced ∧ ∀ s : State, s.Holds id items → m s = .outOfFuel ∨ m' s = m s

namespace Run.FollowedBy

variable {α β : Type} {id : Nat} {items : Array Value}

theorem refl {m : Run α} (hm : m.Balanced) : FollowedBy id items m m :=
  ⟨hm, fun _ _ => .inr rfl⟩

theorem bind {m m' : Run α} {f f' : α → Run β} (hm : FollowedBy id items m m')
    (hf : ∀ a, FollowedBy id items (f a) (f' a)) :
    FollowedBy id items (m >>= f) (m' >>= f') := by
  refine ⟨hm.1.bind fun a => (hf a).1, fun s hs => ?_⟩
  rcases hm.2 s hs with h | h
  · exact .inl (bind_outOfFuel h)
  · -- the list is still locked where the second part starts
    rw [bind_apply, bind_apply, h]
    cases hd : m s with
    | done a t => exact (hf a).2 t (hs.of_balanced (hm.1 s t (by rw [hd]; rfl)))
    | halted k t => exact .inr rfl
    | outOfFuel => exact .inr rfl

theorem located (span : Option Span) {m m' : Run α} (hm : FollowedBy id items m m') :
    FollowedBy id items (Run.located span m) (Run.located span m') := by
  refine ⟨hm.1.located span, fun s hs => ?_⟩
  unfold Run.located
  rcases hm.2 s hs with h | h
  · exact .inl (by rw [h])
  · exact .inr (by rw [h])

theorem iterating (other : Nat) {m m' : Run α} (hm : FollowedBy id items m m') :
    FollowedBy id items (Run.iterating other m) (Run.iterating other m') := by
  refine ⟨hm.1.iterating other, fun s hs => ?_⟩
  have hopen : State.Holds id items
      { s with store := { s.store with heap := s.store.heap.beginIteration other } } := by
    refine ⟨Nat.lt_of_lt_of_le hs.1 (s.store.heap.iterations_le_beginIteration other id), ?_⟩
    rw [Heap.items_beginIteration]
    exact hs.2
  unfold Run.iterating
  rcases hm.2 _ hopen with h | h
  · exact .inl (by rw [h]; rfl)
  · exact .inr (by rw [h])

theorem inFrame (frame : Frame) {m m' : Run Unit} (hm : FollowedBy id items m m') :
    FollowedBy id items (Run.inFrame frame m) (Run.inFrame frame m') := by
  refine ⟨hm.1.inFrame frame, fun s hs => ?_⟩
  unfold Run.inFrame
  rcases hm.2 { s with frame, depth := s.depth + 1 } hs with h | h
  · exact .inl (by rw [h])
  · exact .inr (by rw [h])

theorem congruence (opts : Options) (id : Nat) (items : Array Value) :
    Congruence opts opts fun _ m m' => FollowedBy id items m m' :=
  have c := Run.Balanced.congruence opts
  { pure := fun a => refl (c.pure a)
    bind := bind
    halt := fun hh => refl (c.halt hh)
    exhausted := fun m => ⟨c.exhausted m, fun _ _ => .inl rfl⟩
    read := fun f => refl (c.read f)
    bindName := fun name v => refl (c.bindName name v)
    signalReturn := fun v => refl (c.signalReturn v)
    newList := fun vs => refl (c.newList vs)
    setItem := fun op id n v => refl (c.setItem op id n v)
    pushItem := fun op id v => refl (c.pushItem op id v)
    effect := fun f args => refl (c.effect f args)
    writeTo := fun path contents append => refl (c.writeTo path contents append)
    trace := fun hline => refl (c.trace hline)
    located := located
    iterating := iterating
    inFrame := inFrame
    deeper := fun h depth => by
      split
      · exact refl (c.halt rfl)
      · exact h
    policy := rfl }

end Run.FollowedBy

/-- Where a list is locked, every evaluation finds and leaves it as it is. -/
theorem eval_followedBy_watched (opts : Options) (id : Nat) (items : Array Value) (fuel : Nat)
    (outer : List Frame) (i : Instr) :
    Run.FollowedBy id items (eval opts fuel outer i)
      (watched opts (Check.keeps id items) fuel outer i) := by
  have c := Run.FollowedBy.congruence opts id items
  induction fuel generalizing outer i with
  | zero => exact c.exhausted _
  | succ fuel ih =>
      obtain ⟨hb, hstep⟩ := c.step ih (Nat.le_refl fuel) outer i
      refine ⟨hb, fun s hs => ?_⟩
      rcases hstep s hs with h | h
      · exact .inl h
      · -- the check passes: a balanced heap has the items of a locked list
        refine .inr (watched_succ opts _ fuel outer i s h ⟨hs.2, fun t ht => ?_⟩)
        exact (hs.of_balanced (hb s t ht)).2

/-! ## Main result -/

namespace Eval

/-- The rounds of a loop over a list go the same way if each evaluation inside them is watched for
    the list to be as it was. -/
theorem listRounds_watched (opts : Options) (fuel : Nat) (outer : List Frame) (i : Instr) {id : Nat}
    {u : State}
    (hfin : (listRounds opts (eval opts fuel outer) i id (u.store.heap.items id) u).finished
      = true) :
    listRounds opts (watched opts (Check.keeps id (u.store.heap.items id)) fuel outer) i id
        (u.store.heap.items id) u
      = listRounds opts (eval opts fuel outer) i id (u.store.heap.items id) u := by
  by_cases hid : id < u.store.heap.lists.size
  · have c := Run.FollowedBy.congruence opts id (u.store.heap.items id)
    have hrounds := c.itemRounds i.value
      (c.block (eval_followedBy_watched opts id (u.store.heap.items id) fuel outer) i.body)
      (u.store.heap.items id).toList
    -- opening the iteration is what locks the list
    have hopen : State.Holds id (u.store.heap.items id)
        { u with store := { u.store with heap := u.store.heap.beginIteration id } } := by
      refine ⟨?_, u.store.heap.items_beginIteration id id⟩
      rw [u.store.heap.iterations_beginIteration id id hid, if_pos rfl]
      omega
    unfold listRounds Run.iterating at hfin ⊢
    rcases hrounds.2 _ hopen with h | h
    · rw [h] at hfin
      cases hfin
    · rw [h]
  · -- a list that is not there has no items, and the loop no rounds
    have hitems : u.store.heap.items id = #[] := by simp [Heap.items, hid]
    rw [hitems]
    rfl

end Eval

/-- Iteration locks are given back and are effective. However the evaluation of an instruction or
    the call of a value ends, the heap is balanced; nothing that the loop over a list comes to
    evaluate, however deep, changes the list; and after a run every list can be changed. -/
theorem iteration_locks (opts : Options) :
    (∀ fuel outer i s t, (eval opts fuel outer i s).state? = some t →
      s.store.heap.Balanced t.store.heap) ∧
    (∀ fuel outer scope callee args s t,
      (Eval.callValue opts (eval opts fuel) outer scope callee args s).state? = some t →
      s.store.heap.Balanced t.store.heap) ∧
    (∀ fuel outer i e id s u, i.operands.head? = some e →
      eval opts fuel outer e s = .done (some (.list id)) u →
      Eval.eachLoop opts (eval opts fuel outer) i s
          = (Eval.listRounds opts (eval opts fuel outer) i id (u.store.heap.items id)
              >>= fun _ => pure none) u ∧
      ((Eval.listRounds opts (eval opts fuel outer) i id (u.store.heap.items id) u).finished
          = true →
        Eval.listRounds opts (watched opts (Check.keeps id (u.store.heap.items id)) fuel outer) i id
            (u.store.heap.items id) u
          = Eval.listRounds opts (eval opts fuel outer) i id (u.store.heap.items id) u)) ∧
    (∀ (p : Program) arguments files stdin o t,
      p.Ends opts arguments (Program.start files stdin) o → o.state? = some t →
      ∀ op id, t.store.heap.checkMutable op id = .ok ()) := by
  have c := Run.Balanced.congruence opts
  refine ⟨fun fuel => c.eval (Nat.le_refl fuel), fun fuel => c.evalCall (Nat.le_refl fuel), ?_, ?_⟩
  · intro fuel outer i e id s u he hev
    exact ⟨Eval.eachLoop_of_list opts he hev, Eval.listRounds_watched opts fuel outer i⟩
  · -- a run starts without lists, so that every list is one made meanwhile
    rintro p arguments files stdin o t ⟨_, fuel, rfl⟩ ht op id
    have hb := c.run (Nat.le_refl fuel) p arguments _ t ht
    unfold Heap.checkMutable
    rw [hb.fresh id (Nat.zero_le id), if_pos rfl]

/-- A program that pushes on a list while it iterates it. -/
def pushingLoop : Program where
  functions := []
  main :=
    [.mk .assign (some "a")
      [.mk .array none [.mk .integer (some "1") [] [] [] none] [] [] none] [] [] none,
     .mk .eachLoop (some "x") [.mk .value (some "a") [] [] [] none]
      [.mk .callNamed (some "array-push")
        [.mk .value (some "a") [] [] [] none, .mk .value (some "x") [] [] [] none] [] [] none]
      [] none]

/-- The push is refused, the list is as it was, and then it can be changed again. -/
theorem iteration_locks_pushingLoop :
    ∃ h t, pushingLoop.Ends {} [] (Program.start {} {}) (.halted h t) ∧
      t.store.heap.items 0 = #[.int 1] ∧
      ∀ op, t.store.heap.checkMutable op 0 = .ok () := by
  have hends : ∃ h t, pushingLoop.Ends {} [] (Program.start {} {}) (.halted h t) ∧
      t.store.heap.items 0 = #[.int 1] := ⟨_, _, ⟨rfl, 9, rfl⟩, rfl⟩
  obtain ⟨h, t, ho, hitems⟩ := hends
  have hmutable := (iteration_locks {}).2.2.2 pushingLoop [] {} {} _ t ho rfl
  exact ⟨h, t, ho, hitems, fun op => hmutable op 0⟩

end TagScript
