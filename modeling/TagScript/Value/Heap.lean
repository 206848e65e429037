import TagScript.Value.Basic

set_option autoImplicit false

/-! # Shared lists

The heap holds the items of all lists. A list counts the iterations over it that are in progress,
and refuses to change while there is one. -/

namespace TagScript

/-- The items of a list, and the number of iterations over it in progress. -/
structure SharedList where
  items : Array Value
  iterations : Nat := 0
  deriving Repr

/-- All lists; a list value refers to one by its index. -/
structure Heap where
  lists : Array SharedList := #[]
  deriving Repr, Inhabited

namespace Heap

/-- The heap with a new list, and the value that refers to it. -/
def alloc (h : Heap) (items : List Value) : Value × Heap :=
  (.list h.lists.size, ⟨h.lists.push ⟨items.toArray, 0⟩⟩)

/-- The items of a list. -/
def items (h : Heap) (id : Nat) : Array Value :=
  match h.lists[id]? with
  | some l => l.items
  | none => #[]

/-- The number of items of a list. -/
def length (h : Heap) (id : Nat) : Nat := (h.items id).size

/-- The number of iterations over a list in progress. -/
def iterations (h : Heap) (id : Nat) : Nat :=
  match h.lists[id]? with
  | some l => l.iterations
  | none => 0

/-- The heap with the items of a list changed. -/
def mapItems (h : Heap) (id : Nat) (f : Array Value → Array Value) : Heap :=
  ⟨h.lists.modify id fun l => { l with items := f l.items }⟩

/-- The heap with one more iteration over a list in progress. -/
def beginIteration (h : Heap) (id : Nat) : Heap :=
  ⟨h.lists.modify id fun l => { l with iterations := l.iterations + 1 }⟩

/-- The heap with one iteration less over a list in progress. -/
def endIteration (h : Heap) (id : Nat) : Heap :=
  ⟨h.lists.modify id fun l => { l with iterations := l.iterations - 1 }⟩

/-! ### What changes of the heap leave alone -/

/-- The items of one list are changed, and those of no other. -/
theorem items_mapItems (h : Heap) (id other : Nat) (f : Array Value → Array Value)
    (hid : id < h.lists.size) :
    (h.mapItems id f).items other = if other = id then f (h.items id) else h.items other := by
  simp only [items, mapItems, Array.getElem?_modify]
  by_cases ho : other = id
  · subst ho
    simp [hid]
  · simp [ho, Ne.symm ho]

/-- Changing items opens and closes no iteration. -/
@[simp] theorem iterations_mapItems (h : Heap) (id other : Nat) (f : Array Value → Array Value) :
    (h.mapItems id f).iterations other = h.iterations other := by
  simp only [iterations, mapItems, Array.getElem?_modify]
  by_cases ho : id = other
  · cases h.lists[other]? <;> simp [ho]
  · simp [ho]

/-- Opening an iteration changes no items. -/
@[simp] theorem items_beginIteration (h : Heap) (id other : Nat) :
    (h.beginIteration id).items other = h.items other := by
  simp only [items, beginIteration, Array.getElem?_modify]
  by_cases ho : id = other
  · cases h.lists[other]? <;> simp [ho]
  · simp [ho]

/-- Closing an iteration changes no items. -/
@[simp] theorem items_endIteration (h : Heap) (id other : Nat) :
    (h.endIteration id).items other = h.items other := by
  simp only [items, endIteration, Array.getElem?_modify]
  by_cases ho : id = other
  · cases h.lists[other]? <;> simp [ho]
  · simp [ho]

/-- An opened iteration counts for its list alone. -/
theorem iterations_beginIteration (h : Heap) (id other : Nat) (hid : id < h.lists.size) :
    (h.beginIteration id).iterations other
      = h.iterations other + if other = id then 1 else 0 := by
  simp only [iterations, beginIteration, Array.getElem?_modify]
  by_cases ho : other = id
  · subst ho
    simp [hid]
  · simp [ho, Ne.symm ho]

/-- Closing an iteration that was opened restores the counters. -/
@[simp] theorem endIteration_beginIteration (h : Heap) (id : Nat) :
    (h.beginIteration id).endIteration id = h := by
  obtain ⟨lists⟩ := h
  simp only [beginIteration, endIteration, Heap.mk.injEq]
  apply Array.ext
  · simp
  · intro i _ _
    simp only [Array.getElem_modify]
    by_cases hi : id = i <;> simp [hi]

/-! ### Refusals -/

/-- The refusal to change a list that is being iterated. -/
def checkMutable (h : Heap) (op : String) (id : Nat) : Except Halt Unit :=
  if h.iterations id = 0 then .ok () else .error (.refused op .iterated)

/-- The position of an item, or the refusal of an index outside the list. -/
def position (h : Heap) (op : String) (id : Nat) (index : Int) : Except Halt Nat :=
  if 0 ≤ index ∧ index < h.length id then .ok index.toNat
  else .error (.refused op (.outOfBounds index (h.length id)))

/-- The item at an index. -/
def get (h : Heap) (op : String) (id : Nat) (index : Int) : Except Halt Value := do
  let i ← h.position op id index
  match (h.items id)[i]? with
  | some v => pure v
  | none => throw (.refused op (.outOfBounds index (h.length id)))

/-- The last item of a list, or the refusal of an empty list. -/
def last (h : Heap) (op : String) (id : Nat) : Except Halt Value :=
  match (h.items id).back? with
  | some v => .ok v
  | none => .error (.refused op .emptyList)

end Heap

end TagScript
