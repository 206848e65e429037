import TagScript.Proofs.Eval.Native
import TagScript.Proofs.Eval.Rounds

set_option autoImplicit false

/-! # Properties of all values of a heap or a frame

A property of values holds for a heap if all items of all lists have it, and for a frame if what its
names are bound to and what it returns have it. Each change of a heap or a frame keeps a property
that the values it brings in have; the values that native functions make are few
(`Native.Does.each`). -/

namespace TagScript

/-! ## Heaps -/

namespace Heap

variable {P Q : Value → Prop} {h k : Heap} {op : String} {id : Nat} {v : Value}

/-- All items of all lists have the property. -/
def Each (P : Value → Prop) (h : Heap) : Prop := ∀ id, ∀ v ∈ h.items id, P v

theorem size_alloc (h : Heap) (items : List Value) :
    (h.alloc items).2.lists.size = h.lists.size + 1 := by
  simp [Heap.alloc]

@[simp] theorem size_mapItems (h : Heap) (id : Nat) (f : Array Value → Array Value) :
    (h.mapItems id f).lists.size = h.lists.size := by
  simp [Heap.mapItems]

namespace Each

theorem imp (hh : h.Each P) (hPQ : ∀ v, P v → Q v) : h.Each Q :=
  fun id v hv => hPQ v (hh id v hv)

theorem empty : Each P {} := by
  intro id v hv
  have hitems : ({} : Heap).items id = #[] := by simp [Heap.items]
  rw [hitems] at hv
  exact absurd hv (Array.not_mem_empty v)

theorem alloc (hh : h.Each P) {items : List Value} (hitems : ∀ v ∈ items, P v) :
    (h.alloc items).2.Each P := by
  intro id v hv
  have hlist : (h.alloc items).2.lists[id]?
      = if id = h.lists.size then some ⟨items.toArray, 0⟩ else h.lists[id]? := Array.getElem?_push
  unfold Heap.items at hv
  rw [hlist] at hv
  split at hv
  · rename_i l hl
    split at hl
    · cases hl
      exact hitems v (List.mem_toArray.1 hv)
    · exact hh id v (by simpa [Heap.items, hl] using hv)
  · exact absurd hv (Array.not_mem_empty v)

theorem mapItems (hh : h.Each P) (id : Nat) {f : Array Value → Array Value}
    (hf : ∀ v ∈ f (h.items id), P v) : (h.mapItems id f).Each P := by
  intro other v hv
  by_cases hid : id < h.lists.size
  · rw [h.items_mapItems id other f hid] at hv
    split at hv
    · exact hf v hv
    · exact hh other v hv
  · have hsame : (h.mapItems id f).items other = h.items other := by
      by_cases ho : id = other
      · subst ho
        simp [Heap.items, Heap.mapItems, hid]
      · simp [Heap.items, Heap.mapItems, Array.getElem?_modify, ho]
    rw [hsame] at hv
    exact hh other v hv

/-- A heap with the same items. -/
theorem of_items (hh : h.Each P) (hitems : ∀ id, k.items id = h.items id) : k.Each P := by
  intro id v hv
  rw [hitems] at hv
  exact hh id v hv

theorem set (hh : h.Each P) {index : Int} (hv : P v) (hok : h.set op id index v = .ok k) :
    k.Each P ∧ k.lists.size = h.lists.size := by
  obtain ⟨_, _, hok⟩ := except_bind_ok hok
  obtain ⟨i, _, hok⟩ := except_bind_ok hok
  cases hok
  refine ⟨hh.mapItems id fun w hw => ?_, h.size_mapItems id _⟩
  rcases Array.mem_or_eq_of_mem_setIfInBounds hw with hold | rfl
  · exact hh id w hold
  · exact hv

theorem push (hh : h.Each P) (hv : P v) (hok : h.push op id v = .ok k) :
    k.Each P ∧ k.lists.size = h.lists.size := by
  obtain ⟨_, _, hok⟩ := except_bind_ok hok
  cases hok
  refine ⟨hh.mapItems id fun w hw => ?_, h.size_mapItems id _⟩
  rcases Array.mem_push.1 hw with hold | rfl
  · exact hh id w hold
  · exact hv

theorem pop (hh : h.Each P) (hok : h.pop op id = .ok (v, k)) :
    k.Each P ∧ k.lists.size = h.lists.size ∧ P v := by
  obtain ⟨_, _, hok⟩ := except_bind_ok hok
  split at hok
  · rename_i w hback
    cases hok
    refine ⟨hh.mapItems id fun w hw => hh id w ?_, h.size_mapItems id _,
      hh id v (Array.mem_of_back? hback)⟩
    rw [← Array.mem_toList_iff, Array.toList_pop] at hw
    exact Array.mem_toList_iff.1 (List.dropLast_subset _ hw)
  · cases hok

theorem get (hh : h.Each P) {index : Int} (hok : h.get op id index = .ok v) : P v := by
  obtain ⟨i, _, hok⟩ := except_bind_ok hok
  split at hok
  · rename_i w hget
    cases hok
    exact hh id v (Array.mem_of_getElem? hget)
  · cases hok

end Each

end Heap

/-! ## Frames -/

namespace Frame

/-- The value of a name is bound in one of the frames. -/
theorem exists_of_lookup? {name : Name} {frames : List Frame} {v : Value}
    (h : lookup? name frames = some v) : ∃ f ∈ frames, f.bindings.get? name = some v := by
  induction frames with
  | nil => cases h
  | cons f outer ih =>
      unfold lookup? at h
      split at h
      · rename_i w hget
        exact ⟨f, List.mem_cons_self, hget.trans h⟩
      · obtain ⟨g, hg, hget⟩ := ih h
        exact ⟨g, List.mem_cons_of_mem f hg, hget⟩

variable {P Q : Value → Prop} {f : Frame}

/-- All values of a frame have the property. -/
structure Each (P : Value → Prop) (f : Frame) : Prop where
  bindings : ∀ name v, f.bindings.get? name = some v → P v
  returned : ∀ v, f.returned = some v → P v

namespace Each

theorem imp (h : f.Each P) (hPQ : ∀ v, P v → Q v) : f.Each Q where
  bindings name v hv := hPQ v (h.bindings name v hv)
  returned v hv := hPQ v (h.returned v hv)

theorem empty : Each P {} where
  bindings name v hv := by cases hv
  returned v hv := by cases hv

theorem bind (h : f.Each P) (name : Name) {v : Value} (hv : P v) : (f.bind name v).Each P where
  bindings other w hw := by
    have hget : (f.bindings.insert name v).get? other = some w := hw
    rw [Bindings.get?_insert] at hget
    split at hget
    · cases hget
      exact hv
    · exact h.bindings other w hget
  returned := h.returned

/-- Names bound one after the other to values that have the property. -/
theorem foldl_bind {α : Type} (name : α → Name) (value : α → Value) (l : List α)
    (hl : ∀ a ∈ l, P (value a)) (h : f.Each P) :
    (l.foldl (fun f a => f.bind (name a) (value a)) f).Each P := by
  induction l generalizing f with
  | nil => exact h
  | cons a rest ih =>
      exact ih (fun b hb => hl b (List.mem_cons_of_mem a hb))
        (h.bind (name a) (hl a List.mem_cons_self))

theorem ofArguments {params : List String} {args : List Value} (hargs : ∀ v ∈ args, P v) :
    (Frame.ofArguments params args).Each P :=
  foldl_bind (fun e : String × Value => some e.1) (fun e => e.2) (params.zip args)
    (fun _ he => hargs _ (List.of_mem_zip he).2) empty

/-- The root frame holds native functions and functions of the program. -/
theorem ofProgram {p : Program} {arguments : List String}
    (hnative : ∀ n ∈ Native.library arguments, P (.native n))
    (hclosure : ∀ d ∈ p.functions, P (.closure ⟨d.name, d.params, d.body⟩)) :
    (Frame.ofProgram p arguments).Each P := by
  have hnatives : Frame.Each P
      ((Native.library arguments).foldl (fun f n => f.bind (some n.name) (.native n)) {}) :=
    foldl_bind (fun n : Native => some n.name) Value.native (Native.library arguments) hnative empty
  exact foldl_bind (fun d : FunctionDef => some d.name)
    (fun d => .closure ⟨d.name, d.params, d.body⟩) p.functions hclosure hnatives

/-- What a name is bound to, in frames that have the property, has it. -/
theorem of_lookup? {name : Name} {frames : List Frame} {v : Value}
    (h : ∀ f ∈ frames, f.Each P) (hv : lookup? name frames = some v) : P v := by
  obtain ⟨f, hf, hget⟩ := exists_of_lookup? hv
  exact (h f hf).bindings name v hget

end Each

theorem root_mem (f : Frame) (outer : List Frame) : f.root outer ∈ f :: outer := by
  induction outer generalizing f with
  | nil => exact List.mem_singleton_self f
  | cons g outer ih => exact List.mem_cons_of_mem f (ih g)

end Frame

/-! ## Native functions -/

theorem Value.eq_of_present? {v w : Value} (h : v.present? = some w) : w = v := by
  cases v <;> cases h <;> rfl

theorem Value.integer_ok {op : String} {n : Int} {v : Value} (h : Value.integer op n = .ok v) :
    Fits n ∧ v = .int n := by
  unfold Value.integer at h
  split at h
  · rename_i hfit
    cases h
    exact ⟨hfit, rfl⟩
  · cases h

namespace Native.Does

variable {f : Native} {args : List Value} {s t : Store} {r : Option Value}

/-- Native functions take no list away. -/
theorem size_le (hd : Native.Does s f args r t) :
    s.heap.lists.size ≤ t.heap.lists.size := by
  have htrue : s.heap.Each fun _ => True := fun _ _ _ => trivial
  cases hd with
  | split | splitWords | getArgs =>
      exact Nat.le_of_lt (by simp [textList, Store.newList, Heap.size_alloc])
  | arraySet id index v heap hset => exact Nat.le_of_eq (htrue.set trivial hset).2.symm
  | arrayPush id v heap hpush => exact Nat.le_of_eq (htrue.push trivial hpush).2.symm
  | arrayPop id v heap hpop => exact Nat.le_of_eq (htrue.pop hpop).2.1.symm
  | _ => exact Nat.le_refl _

/-- Native functions keep a property that integers of 64 bits, texts and the lists that there are in
    the end have; what they give has it too. -/
theorem each {P : Value → Prop} (hd : Native.Does s f args r t) (hs : s.heap.Each P)
    (hargs : ∀ v ∈ args, P v) (hint : ∀ n, Value.Fits n → P (.int n)) (htext : ∀ x, P (.text x))
    (hlist : ∀ id < t.heap.lists.size, P (.list id)) :
    t.heap.Each P ∧ ∀ v, r = some v → P v := by
  cases hd with
  | print | printLine =>
      refine ⟨hs, ?_⟩
      rintro w ⟨⟩
      exact hargs _ List.mem_cons_self
  | input | readFile =>
      refine ⟨hs, ?_⟩
      rintro v ⟨⟩
      exact htext _
  | split | splitWords | getArgs =>
      refine ⟨hs.alloc fun v hv => ?_, ?_⟩
      · obtain ⟨piece, _, rfl⟩ := List.mem_map.1 hv
        exact htext _
      · rintro v ⟨⟩
        exact hlist _ (by simp [textList, Store.newList, Heap.size_alloc])
  | toAscii code v hv =>
      refine ⟨hs, ?_⟩
      rintro w ⟨⟩
      unfold asciiText at hv
      split at hv <;> cases hv
      exact htext _
  | fromAscii text v hv =>
      refine ⟨hs, ?_⟩
      rintro w ⟨⟩
      unfold asciiCode at hv
      split at hv
      · split at hv
        · cases hv
          exact hint _ ⟨by unfold Value.minInteger; omega, by unfold Value.maxInteger; omega⟩
        · cases hv
      · cases hv
  | arraySet id index v heap hset =>
      have hv := hargs v (List.mem_cons_of_mem _ (List.mem_cons_of_mem _ List.mem_cons_self))
      exact ⟨(hs.set hv hset).1, fun _ hr => by cases hr⟩
  | arrayPush id v heap hpush =>
      have hv := hargs v (List.mem_cons_of_mem _ List.mem_cons_self)
      exact ⟨(hs.push hv hpush).1, fun _ hr => by cases hr⟩
  | arrayPop id v heap hpop =>
      obtain ⟨hheap, _, hv⟩ := hs.pop hpop
      refine ⟨hheap, fun w hw => ?_⟩
      rw [Value.eq_of_present? hw]
      exact hv
  | arrayGet id index item v hget hcopy =>
      refine ⟨hs, ?_⟩
      rintro w ⟨⟩
      have hitem := hs.get hget
      cases item <;> cases hcopy <;> exact hitem
  | arrayLength id v hv =>
      refine ⟨hs, ?_⟩
      rintro w ⟨⟩
      obtain ⟨hfit, rfl⟩ := Value.integer_ok hv
      exact hint _ hfit

end Native.Does

end TagScript
