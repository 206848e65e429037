import TagScript.Proofs.Soundness.Value
import TagScript.Proofs.Termination

set_option autoImplicit false

/-! # Views of values and lists

Operators read numbers and texts; of a list they use its items, and of a function of the program its
name. A view changes what is left: it may number the lists otherwise, with further lists in the
heap, and put other functions of the same name in the place of functions. Every operation on what
a view shows gives what the view shows of its result, and is refused for the same reason. -/

namespace TagScript

/-! ## Values that operators do not tell apart -/

namespace Value

/-- A value that is neither a list nor a function of the program. -/
def Inert : Value → Prop
  | .list _ => False
  | .closure _ => False
  | _ => True

theorem Scalar.inert {v : Value} (h : v.Scalar) : v.Inert := by
  cases v with
  | list | closure => cases h
  | _ => trivial

theorem castInteger_inert {op : String} {v r : Value} (h : v.castInteger op = .ok r) :
    r.Inert := by
  cases v with
  | int n =>
      cases h
      trivial
  | real x => exact (integer_scalar h).inert
  | text s => exact (parseInteger_scalar h).inert
  | _ => cases h

/-- The second value is the first, up to the number of a list, which has become `number` of it, and
    to what a function of the program is beyond its name. -/
inductive Alike (number : Nat → Nat) : Value → Value → Prop where
  | int (n : Int) : Alike number (.int n) (.int n)
  | real (x : Binary64) : Alike number (.real x) (.real x)
  | text (s : String) : Alike number (.text s) (.text s)
  | missingText : Alike number .missingText .missingText
  | list (id : Nat) : Alike number (.list id) (.list (number id))
  | closure (f g : Closure) (name : g.name = f.name) : Alike number (.closure f) (.closure g)
  | native (f : Native) : Alike number (.native f) (.native f)
  | other (tag : String) : Alike number (.other tag) (.other tag)
  | absent : Alike number .absent .absent

namespace Alike

variable {number : Nat → Nat} {v w v' w' : Value}

theorem type?_eq (h : Alike number v w) : w.type? = v.type? := by
  cases h <;> rfl

theorem shownType_eq (h : Alike number v w) : w.shownType = v.shownType := by
  rw [shownType, shownType, h.type?_eq]

theorem wrongType_eq (h : Alike number v w) (op what expected : String) :
    Halt.wrongType op what expected w = Halt.wrongType op what expected v := by
  rw [Halt.wrongType, Halt.wrongType, h.shownType_eq]

theorem int?_eq (h : Alike number v w) : w.int? = v.int? := by
  cases h <;> rfl

theorem number?_eq (h : Alike number v w) : w.number? = v.number? := by
  cases h <;> rfl

theorem wording?_eq (h : Alike number v w) : w.wording? = v.wording? := by
  cases h <;> rfl

theorem compare_eq (h : Alike number v w) (h' : Alike number v' w') :
    w.compare w' = v.compare v' := by
  cases h <;> cases h' <;> rfl

theorem equal_eq (h : Alike number v w) (h' : Alike number v' w') : w.equal w' = v.equal v' := by
  rw [equal, equal, h.compare_eq h']

theorem greater_eq (h : Alike number v w) (h' : Alike number v' w') :
    w.greater w' = v.greater v' := by
  rw [greater, greater, h.compare_eq h']

theorem lower_eq (h : Alike number v w) (h' : Alike number v' w') : w.lower w' = v.lower v' := by
  rw [lower, lower, h.compare_eq h']

theorem castInteger_eq (h : Alike number v w) (op : String) :
    w.castInteger op = v.castInteger op := by
  cases h <;> rfl

theorem castReal_eq (h : Alike number v w) (op : String) : w.castReal op = v.castReal op := by
  cases h <;> rfl

theorem castText_eq (h : Alike number v w) (op : String) : w.castText op = v.castText op := by
  cases h <;> rfl

theorem eq_of_inert (h : Alike number v w) (hv : v.Inert) : w = v := by
  cases h with
  | list | closure => cases hv
  | _ => rfl

end Alike

/-! ### Several operands -/

section Operands

variable {number : Nat → Nat} {φ : Value → Value} (hφ : ∀ v, Alike number v (φ v))
include hφ

theorem unsupported_map (op : String) (vs : List Value) :
    Halt.unsupported op (vs.map φ) = Halt.unsupported op vs := by
  simp only [Halt.unsupported, List.map_map, Function.comp_def, (hφ _).shownType_eq]

theorem allOf_map {α : Type} {f : Value → Option α}
    (hf : ∀ {v w}, Alike number v w → f w = f v) (vs : List Value) :
    allOf f (vs.map φ) = allOf f vs := by
  induction vs with
  | nil => rfl
  | cons v rest ih =>
      have hv := hφ v
      have heq := hf hv
      rw [List.map_cons]
      generalize φ v = w at hv heq ⊢
      cases hv <;> simp only [allOf, ih, heq]

theorem reals?_map (vs : List Value) : reals? (vs.map φ) = reals? vs := by
  simp only [reals?, allOf_map hφ Alike.number?_eq]

theorem add_map (vs : List Value) : add (vs.map φ) = add vs := by
  simp only [add, allOf_map hφ Alike.int?_eq, allOf_map hφ Alike.wording?_eq,
    reals?_map hφ, unsupported_map hφ]

theorem subtract_map (vs : List Value) : subtract (vs.map φ) = subtract vs := by
  cases vs with
  | nil => rfl
  | cons v rest =>
      simp only [subtract, List.map_cons]
      simp only [← List.map_cons, allOf_map hφ Alike.int?_eq, reals?_map hφ,
        unsupported_map hφ]

theorem multiply_map (vs : List Value) : multiply (vs.map φ) = multiply vs := by
  simp only [multiply, allOf_map hφ Alike.int?_eq, reals?_map hφ, unsupported_map hφ]

theorem divide_map (vs : List Value) : divide (vs.map φ) = divide vs := by
  cases vs with
  | nil => rfl
  | cons v rest =>
      simp only [divide, List.map_cons]
      simp only [← List.map_cons, reals?_map hφ, unsupported_map hφ]

theorem checkArguments_map (name : String) (args : List Value)
    (expected : List (Option String)) :
    checkArguments name (args.map φ) expected = checkArguments name args expected := by
  have htypes (position : Nat) :
      checkTypes name position (args.map φ) expected = checkTypes name position args expected := by
    induction args generalizing position expected with
    | nil => cases expected <;> rfl
    | cons v args ih =>
        cases expected with
        | nil => rfl
        | cons type rest =>
            simp only [List.map_cons, checkTypes, ih, (hφ v).type?_eq, (hφ v).wrongType_eq]
  simp only [checkArguments, List.length_map, htypes]

end Operands

end Value

theorem Native.asciiText_scalar {code : Int} {v : Value} (h : asciiText code = .ok v) :
    v.Scalar := by
  unfold asciiText at h
  split at h <;> cases h
  trivial

theorem Native.asciiCode_scalar {s : String} {v : Value} (h : asciiCode s = .ok v) :
    v.Scalar := by
  unfold asciiCode at h
  split at h
  · split at h <;> cases h
    exact ⟨by unfold Value.minInteger; omega, by unfold Value.maxInteger; omega⟩
  · cases h

/-! ## Views -/

/-- The items of a list changed. -/
def SharedList.map (φ : Value → Value) (l : SharedList) : SharedList :=
  { l with items := l.items.map φ }

/-- A way to see the values and lists of a run. -/
structure View where
  value : Value → Value
  /-- The number of a list. -/
  number : Nat → Nat
  heap : Heap → Heap
  /-- What has been written on the two streams before. -/
  stdout : String := ""
  stderr : String := ""
  alike : ∀ v, Value.Alike number v (value v)
  injective : ∀ id other, number id = number other → id = other
  size_le : ∀ h, h.lists.size ≤ (heap h).lists.size
  getElem? : ∀ h id, (heap h).lists[number id]? = h.lists[id]?.map (.map value)
  /-- Lists change alike, whether they are seen before or after. -/
  modify : ∀ h id (f f' : SharedList → SharedList),
    (∀ l, f' (l.map value) = (f l).map value) →
    (⟨(heap h).lists.modify (number id) f'⟩ : Heap) = heap ⟨h.lists.modify id f⟩
  alloc : ∀ h items, (heap h).alloc (items.map value) = (value (h.alloc items).1,
    heap (h.alloc items).2)

namespace View

variable (e : View)

theorem value_of_inert {v : Value} (h : v.Inert) : e.value v = v := (e.alike v).eq_of_inert h

@[simp] theorem value_text (s : String) : e.value (.text s) = .text s := e.value_of_inert trivial

@[simp] theorem value_missingText : e.value .missingText = .missingText := e.value_of_inert trivial

/-! ### Lists -/

section Lists

variable (h : Heap) (op : String) (id : Nat)

@[simp] theorem items : (e.heap h).items (e.number id) = (h.items id).map e.value := by
  simp only [Heap.items, e.getElem?]
  cases h.lists[id]? with
  | none => simp
  | some l => rfl

@[simp] theorem length : (e.heap h).length (e.number id) = h.length id := by
  simp only [Heap.length, items, Array.size_map]

@[simp] theorem iterations : (e.heap h).iterations (e.number id) = h.iterations id := by
  simp only [Heap.iterations, e.getElem?]
  cases h.lists[id]? <;> rfl

theorem mapItems {f f' : Array Value → Array Value}
    (hf : ∀ items, f' (items.map e.value) = (f items).map e.value) :
    (e.heap h).mapItems (e.number id) f' = e.heap (h.mapItems id f) :=
  e.modify h id _ _ fun l => by simp only [SharedList.map, hf]

theorem beginIteration :
    (e.heap h).beginIteration (e.number id) = e.heap (h.beginIteration id) :=
  e.modify h id _ _ fun _ => rfl

theorem endIteration : (e.heap h).endIteration (e.number id) = e.heap (h.endIteration id) :=
  e.modify h id _ _ fun _ => rfl

theorem checkMutable :
    (e.heap h).checkMutable op (e.number id) = h.checkMutable op id := by
  simp only [Heap.checkMutable, iterations]

theorem position (index : Int) :
    (e.heap h).position op (e.number id) index = h.position op id index := by
  simp only [Heap.position, length]

theorem get (index : Int) :
    (e.heap h).get op (e.number id) index = (h.get op id index).map e.value := by
  simp only [Heap.get, position, items, Array.getElem?_map, length]
  cases h.position op id index with
  | error k => rfl
  | ok i =>
      simp only [bind, Except.bind]
      cases (h.items id)[i]? <;> rfl

theorem set (index : Int) (v : Value) :
    (e.heap h).set op (e.number id) index (e.value v) = (h.set op id index v).map e.heap := by
  simp only [Heap.set, checkMutable, position]
  cases h.checkMutable op id with
  | error k => rfl
  | ok _ =>
      cases h.position op id index with
      | error k => rfl
      | ok i =>
          refine congrArg Except.ok (e.mapItems h id fun items => ?_)
          rw [Array.map_setIfInBounds]

theorem push (v : Value) :
    (e.heap h).push op (e.number id) (e.value v) = (h.push op id v).map e.heap := by
  simp only [Heap.push, checkMutable]
  cases h.checkMutable op id with
  | error k => rfl
  | ok _ =>
      refine congrArg Except.ok (e.mapItems h id fun items => ?_)
      rw [Array.map_push]

theorem pop :
    (e.heap h).pop op (e.number id)
      = (h.pop op id).map fun r => (e.value r.1, e.heap r.2) := by
  simp only [Heap.pop, checkMutable, items, Array.back?_map]
  cases h.checkMutable op id with
  | error k => rfl
  | ok _ =>
      simp only [bind, Except.bind]
      cases (h.items id).back? with
      | none => rfl
      | some v =>
          refine congrArg (fun k => Except.ok (e.value v, k)) (e.mapItems h id fun items => ?_)
          rw [Array.map_pop]

end Lists

/-! ### Truth and text -/

section Heap

variable (h : Heap)

theorem isTruthy (v : Value) : (e.value v).isTruthy (e.heap h) = v.isTruthy h := by
  have hv := e.alike v
  generalize e.value v = w at hv ⊢
  cases hv with
  | list id => simp only [Value.isTruthy, length]
  | _ => rfl

theorem and (vs : List Value) : Value.and (e.heap h) (vs.map e.value) = Value.and h vs := by
  have hall : Value.allTrue (e.heap h) (vs.map e.value) = Value.allTrue h vs := by
    induction vs with
    | nil => rfl
    | cons v rest ih => simp only [List.map_cons, Value.allTrue, isTruthy, ih]
  rw [Value.and, Value.and, hall]

theorem or (vs : List Value) : Value.or (e.heap h) (vs.map e.value) = Value.or h vs := by
  have hany : Value.anyTrue (e.heap h) (vs.map e.value) = Value.anyTrue h vs := by
    induction vs with
    | nil => rfl
    | cons v rest ih => simp only [List.map_cons, Value.anyTrue, isTruthy, ih]
  rw [Value.or, Value.or, hany]

theorem not (v : Value) : (e.value v).not (e.heap h) = v.not h := by
  simp only [Value.not, isTruthy]

theorem formatAll {format format' : Value → Except Halt String}
    (hf : ∀ v, format' (e.value v) = format v) (vs : List Value) :
    Value.formatAll format' (vs.map e.value) = Value.formatAll format vs := by
  induction vs with
  | nil => rfl
  | cons v rest ih => simp only [List.map_cons, Value.formatAll, hf, ih]

theorem contains_map_number (path : List Nat) (id : Nat) :
    (path.map e.number).contains (e.number id) = path.contains id := by
  rw [Bool.eq_iff_iff, List.contains_iff_mem, List.contains_iff_mem, List.mem_map]
  refine ⟨?_, fun h => ⟨id, h, rfl⟩⟩
  rintro ⟨other, hother, heq⟩
  rwa [← e.injective _ _ heq]

theorem formatWithin (room : Nat) (path : List Nat) (nested : Bool) (v : Value) :
    (e.value v).formatWithin (e.heap h) room (path.map e.number) nested
      = v.formatWithin h room path nested := by
  induction room generalizing path nested v with
  | zero =>
      have hv := e.alike v
      generalize e.value v = w at hv ⊢
      cases hv with
      | closure f g name => simp only [Value.formatWithin, name]
      | _ => rfl
  | succ room ih =>
      have hv := e.alike v
      generalize e.value v = w at hv ⊢
      cases hv with
      | list id =>
          have hitem := ih (id :: path) true
          rw [List.map_cons] at hitem
          simp only [Value.formatWithin, contains_map_number, items, Array.toList_map,
            e.formatAll hitem]
      | closure f g name => simp only [Value.formatWithin, name]
      | _ => rfl

/-- There is room for the lists of the heap in both heaps, the seen one having no fewer. -/
theorem format (v : Value) (nested : Bool) :
    (e.value v).format (e.heap h) nested = v.format h nested := by
  have hroom : h.lists.size < (e.heap h).lists.size + 1 := Nat.lt_succ_of_le (e.size_le h)
  rw [← Value.format_of_room h v nested hroom]
  exact e.formatWithin h _ [] nested v

end Heap

/-! ### Native functions -/

/-- The store as it is seen, after what has been written before. -/
def store (s : Store) : Store :=
  { s with
    heap := e.heap s.heap
    stdout := e.stdout ++ s.stdout
    stderr := e.stderr ++ s.stderr }

@[simp] theorem store_heap (s : Store) : (e.store s).heap = e.heap s.heap := rfl

/-- The result of a native function and the store after it as they are seen. -/
def effected (r : Option Value × Store) : Option Value × Store := (r.1.map e.value, e.store r.2)

theorem print (s : Store) (text : String) : (e.store s).print text = e.store (s.print text) := by
  simp only [store, Store.print, String.append_assoc]

theorem trace (s : Store) (line : String) : (e.store s).trace line = e.store (s.trace line) := by
  simp only [store, Store.trace, Store.reportLine, String.append_assoc]

theorem newList (s : Store) (items : List Value) :
    (e.store s).newList (items.map e.value)
      = (e.value (s.newList items).1, e.store (s.newList items).2) := by
  simp only [Store.newList, store, e.alloc]

theorem newList_texts {α : Type} (text : α → String) (as : List α) (s : Store) :
    (e.store s).newList (as.map fun a => .text (text a))
      = (e.value (s.newList (as.map fun a => .text (text a))).1,
        e.store (s.newList (as.map fun a => .text (text a))).2) := by
  have hnew := e.newList s (as.map fun a => .text (text a))
  simpa only [List.map_map, Function.comp_def, value_text] using hnew

theorem textList (s : Store) (pieces : List (List Char)) :
    Native.textList (e.store s) pieces = e.effected (Native.textList s pieces) := by
  simp only [Native.textList]
  exact congrArg (fun r => (some r.1, r.2)) (e.newList_texts String.ofList pieces s)

theorem present? (v : Value) : (e.value v).present? = v.present?.map e.value := by
  have hv := e.alike v
  generalize hw : e.value v = w at hv ⊢
  cases hv with
  | absent => rfl
  | _ => exact congrArg some hw.symm

theorem copy (v : Value) : (e.value v).copy = v.copy.map e.value := by
  have hv := e.alike v
  generalize hw : e.value v = w at hv ⊢
  cases hv with
  | absent => rfl
  | _ => exact congrArg Except.ok hw.symm

theorem effect_of_length_ne (f : Native) (args : List Value) (s : Store)
    (h : args.length ≠ f.signature.length) :
    f.effect (args.map e.value) (e.store s) = (f.effect args s).map e.effected := by
  rw [Native.effect_of_length_ne h, Native.effect_of_length_ne (by rwa [List.length_map]),
    List.length_map]
  rfl

theorem effect_nil (f : Native) (s : Store) :
    f.effect [] (e.store s) = (f.effect [] s).map e.effected := by
  cases f with
  | input =>
      exact except_bind_map (x := s.checkLine) fun _ =>
        congrArg (fun v => Except.ok (some v, e.store s.readLine.2)) (e.value_text _).symm
  | getArgs arguments =>
      exact congrArg (fun r => Except.ok (some r.1, r.2)) (e.newList_texts id arguments s)
  | _ => exact e.effect_of_length_ne _ [] s (by rintro ⟨⟩)

/-- A result that is a number or a text, the store being as before. -/
theorem effect_scalar {x : Except Halt Value} (hx : ∀ v, x = .ok v → v.Scalar) (s : Store) :
    (x >>= fun v => pure (some v, e.store s))
      = (x >>= fun v => (pure (some v, s) : Except Halt (Option Value × Store))).map
          e.effected := by
  cases x with
  | ok v =>
      have hv := e.value_of_inert (hx v rfl).inert
      exact congrArg (fun w => Except.ok (some w, e.store s)) hv.symm
  | error k => rfl

theorem effect_one (f : Native) (v : Value) (s : Store) :
    f.effect [e.value v] (e.store s) = (f.effect [v] s).map e.effected := by
  cases f with
  | print | printLine =>
      simp only [Native.effect, store_heap, e.format]
      exact except_bind_map fun shown => by
        rw [e.print]
        rfl
  | toAscii =>
      have hv := e.alike v
      generalize e.value v = w at hv ⊢
      cases hv with
      | int code => exact e.effect_scalar (fun _ => Native.asciiText_scalar) s
      | _ => rfl
  | fromAscii =>
      have hv := e.alike v
      generalize e.value v = w at hv ⊢
      cases hv with
      | text t => exact e.effect_scalar (fun _ => Native.asciiCode_scalar) s
      | _ => rfl
  | arrayPop =>
      have hv := e.alike v
      generalize e.value v = w at hv ⊢
      cases hv with
      | list id =>
          simp only [Native.effect, store_heap, e.pop]
          exact except_map_bind fun r => by
            simp only [present?]
            rfl
      | _ => rfl
  | arrayLength =>
      have hv := e.alike v
      generalize e.value v = w at hv ⊢
      cases hv with
      | list id =>
          simp only [Native.effect, store_heap, e.length]
          exact e.effect_scalar (fun _ => Value.integer_scalar) s
      | _ => rfl
  | readFile =>
      have hv := e.alike v
      generalize e.value v = w at hv ⊢
      cases hv with
      | text path =>
          exact except_bind_map fun _ => except_bind_map fun text =>
            congrArg (fun v => Except.ok (some v, e.store s)) (e.value_text text).symm
      | _ => rfl
  | _ => exact e.effect_of_length_ne _ [v] s (by rintro ⟨⟩)

theorem effect_two (f : Native) (v w : Value) (s : Store) :
    f.effect [e.value v, e.value w] (e.store s) = (f.effect [v, w] s).map e.effected := by
  cases f with
  | stringSplit =>
      have hv := e.alike v
      have hw := e.alike w
      generalize e.value v = v' at hv ⊢
      generalize e.value w = w' at hw ⊢
      cases hv with
      | text target =>
          cases hw with
          | text delimiter => exact congrArg Except.ok (e.textList s _)
          | missingText => exact congrArg Except.ok (e.textList s _)
          | _ => rfl
      | missingText => cases hw <;> rfl
      | _ => rfl
  | arrayPush =>
      have hv := e.alike v
      generalize e.value v = v' at hv ⊢
      cases hv with
      | list id =>
          simp only [Native.effect, store_heap, e.push]
          exact except_map_bind fun _ => rfl
      | _ => rfl
  | arrayGet =>
      have hv := e.alike v
      have hw := e.alike w
      generalize e.value v = v' at hv ⊢
      generalize e.value w = w' at hw ⊢
      cases hv with
      | list id =>
          cases hw with
          | int index =>
              simp only [Native.effect, store_heap, e.get]
              refine except_map_bind fun item => ?_
              rw [e.copy]
              exact except_map_bind fun _ => rfl
          | _ => rfl
      | _ => rfl
  | _ => exact e.effect_of_length_ne _ [v, w] s (by rintro ⟨⟩)

theorem effect_three (f : Native) (v w x : Value) (s : Store) :
    f.effect [e.value v, e.value w, e.value x] (e.store s)
      = (f.effect [v, w, x] s).map e.effected := by
  cases f with
  | arraySet =>
      have hv := e.alike v
      have hw := e.alike w
      generalize e.value v = v' at hv ⊢
      generalize e.value w = w' at hw ⊢
      cases hv with
      | list id =>
          cases hw with
          | int index =>
              simp only [Native.effect, store_heap, e.set]
              exact except_map_bind fun _ => rfl
          | _ => rfl
      | _ => rfl
  | writeFile => rfl
  | _ => exact e.effect_of_length_ne _ [v, w, x] s (by rintro ⟨⟩)

/-- A native function gives of what is seen what is seen of its result. -/
theorem effect (f : Native) (args : List Value) (s : Store) :
    f.effect (args.map e.value) (e.store s) = (f.effect args s).map e.effected := by
  match args with
  | [] => exact e.effect_nil f s
  | [v] => exact e.effect_one f v s
  | [v, w] => exact e.effect_two f v w s
  | [v, w, x] => exact e.effect_three f v w x s
  | _ :: _ :: _ :: _ :: _ => exact e.effect_of_length_ne f _ s (by cases f <;> nofun)

end View

/-! ## Frames -/

/-- The value that is there, if any, before or after it is seen. -/
theorem View.present (e : View) (v : Option Value) :
    (v.map e.value).bind Value.present? = (v.bind Value.present?).map e.value := by
  cases v with
  | none => rfl
  | some v => exact e.present? v

namespace Bindings

variable (φ : Value → Value)

/-- The values of all names changed. -/
def map (b : Bindings) : Bindings := ⟨b.entries.map fun x => (x.1, φ x.2)⟩

theorem get?_map (b : Bindings) (name : Name) : (b.map φ).get? name = (b.get? name).map φ := by
  obtain ⟨entries⟩ := b
  show (entries.map _).lookup name = (entries.lookup name).map φ
  induction entries with
  | nil => rfl
  | cons x rest ih =>
      obtain ⟨k, v⟩ := x
      simp only [List.map_cons, List.lookup_cons, ih]
      split <;> rfl

theorem insert_map (b : Bindings) (name : Name) (v : Value) :
    (b.map φ).insert name (φ v) = (b.insert name v).map φ := by
  obtain ⟨entries⟩ := b
  refine congrArg Bindings.mk ?_
  show insertEntry name (φ v) (entries.map _) = (insertEntry name v entries).map _
  induction entries with
  | nil => rfl
  | cons x rest ih =>
      simp only [List.map_cons, insertEntry, ih]
      split <;> rfl

end Bindings

namespace Frame

variable (φ : Value → Value)

/-- All values of a frame changed. -/
def map (f : Frame) : Frame := ⟨f.bindings.map φ, f.returned.map φ⟩

theorem map_id (f : Frame) : f.map id = f := by
  obtain ⟨⟨entries⟩, returned⟩ := f
  simp [map, Bindings.map]

theorem bind_map (f : Frame) (name : Name) (v : Value) :
    (f.map φ).bind name (φ v) = (f.bind name v).map φ :=
  congrArg (Frame.mk · _) (f.bindings.insert_map φ name v)

/-- Names bound one after another. -/
theorem foldl_bind_map {α : Type} (name : α → Name) (v : α → Value) {v' : α → Value}
    (hv : ∀ a, v' a = φ (v a)) (as : List α) (f : Frame) :
    as.foldl (fun f a => f.bind (name a) (v' a)) (f.map φ)
      = (as.foldl (fun f a => f.bind (name a) (v a)) f).map φ :=
  List.foldl_hom (map φ) fun f a => by rw [hv, bind_map]

theorem ofArguments_map (params : List String) (args : List Value) :
    ofArguments params (args.map φ) = (ofArguments params args).map φ := by
  unfold ofArguments
  rw [List.zip_map_right, List.foldl_map]
  exact foldl_bind_map φ (fun a => some a.1) Prod.snd (fun _ => rfl) (params.zip args) {}

theorem lookup?_map (name : Name) (frames : List Frame) :
    lookup? name (frames.map (map φ)) = (lookup? name frames).map φ := by
  induction frames with
  | nil => rfl
  | cons f outer ih =>
      simp only [List.map_cons, lookup?, map, Bindings.get?_map, ih]
      cases f.bindings.get? name <;> rfl

/-- Frames that do not bind a name do not matter to its look-up. -/
theorem lookup?_append {name : Name} {frames : List Frame}
    (h : ∀ f ∈ frames, f.bindings.get? name = none) (outer : List Frame) :
    lookup? name (frames ++ outer) = lookup? name outer := by
  induction frames with
  | nil => rfl
  | cons f rest ih =>
      rw [List.cons_append, lookup?, h f List.mem_cons_self]
      exact ih fun g hg => h g (List.mem_cons_of_mem f hg)

@[simp] theorem root_append_singleton (f : Frame) (frames : List Frame) (g : Frame) :
    f.root (frames ++ [g]) = g := by
  induction frames generalizing f with
  | nil => rfl
  | cons h rest ih => exact ih h

theorem root_map (f : Frame) (outer : List Frame) :
    (f.map φ).root (outer.map (map φ)) = (f.root outer).map φ := by
  induction outer generalizing f with
  | nil => rfl
  | cons g outer ih => exact ih g

/-- The root frame of a program holds native functions and functions of the program alone. -/
theorem map_ofProgram (p : Program) (arguments : List String)
    (hnative : ∀ n, φ (.native n) = .native n) (hclosure : ∀ f, φ (.closure f) = .closure f) :
    (ofProgram p arguments).map φ = ofProgram p arguments := by
  have hnatives := foldl_bind_map φ (fun n : Native => some n.name) .native
    (fun n => (hnative n).symm) (Native.library arguments) {}
  have hfunctions := foldl_bind_map φ (fun d : FunctionDef => some d.name)
    (fun d => .closure ⟨d.name, d.params, d.body⟩) (fun _ => (hclosure _).symm) p.functions
    ((Native.library arguments).foldl (fun f n => f.bind (some n.name) (.native n)) {})
  rw [← hnatives] at hfunctions
  exact hfunctions.symm

end Frame

end TagScript
