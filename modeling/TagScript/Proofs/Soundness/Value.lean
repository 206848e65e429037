import TagScript.Proofs.Eval.Fuel
import TagScript.Proofs.Soundness.Each

set_option autoImplicit false

/-! # Sound values

The values that a run of a program can come to hold: integers of 64 bits, numbers and texts, lists
that are in the heap, functions of the program, and native functions of the library. Whether a value
is sound depends on the heap through the number of its lists alone, and a run never makes that
smaller, so a sound value stays sound. -/

namespace TagScript

namespace Value

/-- A number or a text. -/
def Scalar : Value → Prop
  | .int n => Fits n
  | .real _ => True
  | .text _ => True
  | .missingText => True
  | _ => False

/-- A value that a run of the program can hold while the heap has `size` lists. -/
def Sound (p : Program) (arguments : List String) (size : Nat) : Value → Prop
  | .int n => Fits n
  | .real _ => True
  | .text _ => True
  | .missingText => True
  | .list id => id < size
  | .closure f => ∃ d ∈ p.functions, f = ⟨d.name, d.params, d.body⟩
  | .native f => f ∈ Native.library arguments
  | .other _ => False
  | .absent => False

variable {p : Program} {arguments : List String} {size size' : Nat} {v : Value}

theorem Sound.mono (h : v.Sound p arguments size) (hle : size ≤ size') :
    v.Sound p arguments size' := by
  cases v with
  | list id => exact Nat.lt_of_lt_of_le h hle
  | _ => exact h

theorem Sound.ne_absent (h : v.Sound p arguments size) : v ≠ .absent := by
  rintro rfl
  exact h

theorem Scalar.sound (h : v.Scalar) : v.Sound p arguments size := by
  cases v with
  | int | real | text | missingText => exact h
  | _ => cases h

/-! ## Results of operators -/

theorem ofBool_scalar (b : Bool) : (ofBool b).Scalar := by
  cases b <;> exact ⟨by decide, by decide⟩

theorem integer_scalar {op : String} {n : Int} (h : integer op n = .ok v) : v.Scalar := by
  obtain ⟨hfit, rfl⟩ := integer_ok h
  exact hfit

theorem parseInteger_scalar {op s : String} (h : parseInteger op s = .ok v) : v.Scalar := by
  unfold parseInteger at h
  split at h
  · split at h
    · cases h
    · exact integer_scalar h
  · cases h

theorem parseReal_scalar {op s : String} (h : parseReal op s = .ok v) : v.Scalar := by
  unfold parseReal at h
  split at h <;> cases h
  trivial

theorem castInteger_scalar {op : String} {w : Value} (hw : w.Sound p arguments size)
    (h : w.castInteger op = .ok v) : v.Scalar := by
  cases w with
  | int n =>
      cases h
      exact hw
  | real x => exact integer_scalar h
  | text s => exact parseInteger_scalar h
  | _ => cases h

theorem castReal_scalar {op : String} {w : Value} (h : w.castReal op = .ok v) : v.Scalar := by
  cases w with
  | int n =>
      obtain ⟨x, _, rfl⟩ := except_map_ok h
      trivial
  | real x =>
      cases h
      trivial
  | text s => exact parseReal_scalar h
  | _ => cases h

theorem castText_scalar {op : String} {w : Value} (h : w.castText op = .ok v) : v.Scalar := by
  unfold castText at h
  split at h <;> cases h <;> trivial

theorem add_scalar {vs : List Value} (h : add vs = .ok v) : v.Scalar := by
  obtain ⟨ints, _, hints⟩ := except_bind_ok h
  cases ints with
  | some ns => exact integer_scalar hints
  | none =>
      obtain ⟨reals, _, hreals⟩ := except_bind_ok hints
      cases reals with
      | some xs =>
          cases hreals
          trivial
      | none =>
          obtain ⟨texts, _, htexts⟩ := except_bind_ok hreals
          cases texts with
          | some ts =>
              obtain ⟨joined, _, rfl⟩ := except_map_ok htexts
              trivial
          | none => cases htexts

theorem subtract_scalar {vs : List Value} (h : subtract vs = .ok v) : v.Scalar := by
  unfold subtract at h
  split at h
  · cases h
  · obtain ⟨ints, _, hints⟩ := except_bind_ok h
    split at hints
    · obtain ⟨_, _, hdiff⟩ := except_bind_ok hints
      exact integer_scalar hdiff
    · obtain ⟨reals, _, hreals⟩ := except_bind_ok hints
      split at hreals <;> cases hreals
      trivial

theorem multiply_scalar {vs : List Value} (h : multiply vs = .ok v) : v.Scalar := by
  obtain ⟨ints, _, hints⟩ := except_bind_ok h
  cases ints with
  | some ns => exact integer_scalar hints
  | none =>
      obtain ⟨reals, _, hreals⟩ := except_bind_ok hints
      cases reals with
      | some xs =>
          cases hreals
          trivial
      | none => cases hreals

theorem divide_scalar {vs : List Value} (h : divide vs = .ok v) : v.Scalar := by
  unfold divide at h
  split at h
  · cases h
  · obtain ⟨reals, _, hreals⟩ := except_bind_ok h
    split at hreals <;> cases hreals
    trivial

/-- A truth value that was computed from something. -/
theorem map_ofBool_scalar {α : Type} {x : Except Halt α} {f : α → Bool}
    (h : (x.map fun a => ofBool (f a)) = .ok v) : v.Scalar := by
  obtain ⟨a, _, rfl⟩ := except_map_ok h
  exact ofBool_scalar _

end Value

/-! ## Sound heaps -/

namespace Heap

variable {p : Program} {arguments : List String} {h k : Heap}

/-- All items of all lists are sound. -/
def Sound (p : Program) (arguments : List String) (h : Heap) : Prop :=
  ∀ id, ∀ v ∈ h.items id, v.Sound p arguments h.lists.size

theorem sound_of_each (hk : k.Each fun v => v.Sound p arguments h.lists.size)
    (hsize : h.lists.size ≤ k.lists.size) : k.Sound p arguments :=
  hk.imp fun _ hv => hv.mono hsize

theorem Sound.alloc (hs : h.Sound p arguments) {items : List Value}
    (hitems : ∀ v ∈ items, v.Sound p arguments h.lists.size) :
    (h.alloc items).2.Sound p arguments :=
  sound_of_each (Each.alloc hs hitems) (by simp [size_alloc])

/-- A heap with the same items in as many lists. -/
theorem Sound.of_items (hs : h.Sound p arguments) (hsize : k.lists.size = h.lists.size)
    (hitems : ∀ id, k.items id = h.items id) : k.Sound p arguments :=
  sound_of_each (Each.of_items hs hitems) (Nat.le_of_eq hsize.symm)

theorem Sound.set (hs : h.Sound p arguments) {op : String} {id : Nat} {index : Int} {v : Value}
    (hv : v.Sound p arguments h.lists.size) (hok : h.set op id index v = .ok k) :
    k.Sound p arguments ∧ h.lists.size ≤ k.lists.size := by
  obtain ⟨hk, hsize⟩ := Each.set hs hv hok
  exact ⟨sound_of_each hk (Nat.le_of_eq hsize.symm), Nat.le_of_eq hsize.symm⟩

theorem Sound.push (hs : h.Sound p arguments) {op : String} {id : Nat} {v : Value}
    (hv : v.Sound p arguments h.lists.size) (hok : h.push op id v = .ok k) :
    k.Sound p arguments ∧ h.lists.size ≤ k.lists.size := by
  obtain ⟨hk, hsize⟩ := Each.push hs hv hok
  exact ⟨sound_of_each hk (Nat.le_of_eq hsize.symm), Nat.le_of_eq hsize.symm⟩

end Heap

/-! ## Sound frames and states -/

namespace Frame

variable {p : Program} {arguments : List String} {size size' : Nat} {f : Frame}

/-- All values of a frame are sound. -/
structure Sound (p : Program) (arguments : List String) (size : Nat) (f : Frame) : Prop where
  bindings : ∀ name v, f.bindings.get? name = some v → v.Sound p arguments size
  returned : ∀ v, f.returned = some v → v.Sound p arguments size

theorem Sound.each (h : f.Sound p arguments size) : f.Each fun v => v.Sound p arguments size :=
  ⟨h.bindings, h.returned⟩

theorem Each.sound (h : f.Each fun v => v.Sound p arguments size) : f.Sound p arguments size :=
  ⟨h.bindings, h.returned⟩

theorem Sound.mono (h : f.Sound p arguments size) (hle : size ≤ size') :
    f.Sound p arguments size' :=
  (h.each.imp fun _ hv => hv.mono hle).sound

theorem sound_empty : Sound p arguments size {} := Each.empty.sound

theorem Sound.bind (h : f.Sound p arguments size) (name : Name) {v : Value}
    (hv : v.Sound p arguments size) : (f.bind name v).Sound p arguments size :=
  (h.each.bind name hv).sound

theorem sound_ofArguments {params : List String} {args : List Value}
    (hargs : ∀ v ∈ args, v.Sound p arguments size) :
    (ofArguments params args).Sound p arguments size :=
  (Each.ofArguments hargs).sound

/-- The root frame holds native functions and functions of the program. -/
theorem sound_ofProgram (p : Program) (arguments : List String) (size : Nat) :
    (ofProgram p arguments).Sound p arguments size :=
  (Each.ofProgram (fun _ hn => hn) fun d hd => ⟨d, hd, rfl⟩).sound

/-- The values that a name has in sound frames are sound. -/
theorem sound_of_lookup? {name : Name} {frames : List Frame} {v : Value}
    (h : ∀ f ∈ frames, f.Sound p arguments size) (hv : lookup? name frames = some v) :
    v.Sound p arguments size :=
  Each.of_lookup? (fun f hf => (h f hf).each) hv

end Frame

/-- The number of lists in the heap. -/
def State.size (s : State) : Nat := s.store.heap.lists.size

theorem State.size_lock (s : State) (id : Nat) : (s.lock id).size = s.size := by
  simp [State.size, State.lock, Heap.beginIteration]

theorem State.size_unlock (s : State) (id : Nat) : (s.unlock id).size = s.size := by
  simp [State.size, State.unlock, Heap.endIteration]

/-- All values of the innermost frame and of the heap are sound. -/
structure State.Sound (p : Program) (arguments : List String) (s : State) : Prop where
  frame : s.frame.Sound p arguments s.size
  heap : s.store.heap.Sound p arguments

theorem Program.start_sound (p : Program) (arguments : List String) (files : Files)
    (stdin : Input) : (Program.start files stdin).Sound p arguments where
  frame := Frame.sound_empty
  heap := Heap.Each.empty

/-- Native functions keep the heap sound and give sound values. -/
theorem Native.Does.sound {p : Program} {arguments : List String} {f : Native} {args : List Value}
    {s t : Store} {r : Option Value} (hd : Native.Does s f args r t)
    (hs : s.heap.Sound p arguments)
    (hargs : ∀ v ∈ args, v.Sound p arguments s.heap.lists.size) :
    t.heap.Sound p arguments ∧ s.heap.lists.size ≤ t.heap.lists.size ∧
      ∀ v, r = some v → v.Sound p arguments t.heap.lists.size := by
  have hsize := hd.size_le
  have heach : s.heap.Each fun v => v.Sound p arguments t.heap.lists.size :=
    Heap.Each.imp hs fun _ hv => hv.mono hsize
  obtain ⟨hheap, hr⟩ := hd.each heach (fun v hv => (hargs v hv).mono hsize) (fun _ hn => hn)
    (fun _ => trivial) fun _ hid => hid
  exact ⟨hheap, hsize, hr⟩

end TagScript
