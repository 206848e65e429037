import TagScript.Eval.Step
import TagScript.Proofs.Except

set_option autoImplicit false

/-! # Changes made as a whole

A change of the store goes step by step: looks that may halt the run, and changes that stay. Where
all looks come before all changes, the steps together are one change, made as a whole or not at all
(`Run.onStore`). That is so for the changes of lists (`Run.setItem_eq`), for writing a file
(`Native.openFile_bind_writeAt`) and for native functions (`Native.perform_eq`), whose effect as a
whole is what later modules speak about. -/

namespace TagScript

/-! ## One change of the store -/

namespace Run

variable {α β : Type}

/-- A change of the store made as a whole, or refused with nothing changed. -/
def onStore (f : Store → Except Halt (α × Store)) : Run α := fun s =>
  match f s.store with
  | .ok (a, store) => .done a { s with store }
  | .error h => .halted h s

/-- A change of the heap made as a whole, or refused with nothing changed. -/
def onHeap (f : Heap → Except Halt Heap) : Run Unit :=
  onStore fun st => (f st.heap).map fun heap => ((), { st with heap })

theorem update_eq_onStore (f : Store → Store) : update f = onStore fun s => .ok ((), f s) := rfl

/-- A look before a change of the store is a condition of the change. -/
theorem inspect_bind_onStore (f : Store → Except Halt α)
    (g : α → Store → Except Halt (β × Store)) :
    (inspect f >>= fun a => onStore (g a)) = onStore fun s => f s >>= fun a => g a s := by
  funext s
  rw [bind_apply, inspect, onStore]
  cases f s.store with
  | ok a => rfl
  | error h => rfl

/-- So is a condition that does not depend on the store. -/
theorem lift_bind_onStore (e : Except Halt α) (g : α → Store → Except Halt (β × Store)) :
    (lift e >>= fun a => onStore (g a)) = onStore fun s => e >>= fun a => g a s := by
  cases e with
  | ok a => rfl
  | error h => rfl

theorem inspect_bind_pure (f : Store → Except Halt α) (g : α → β) :
    (inspect f >>= fun a => pure (g a)) = onStore fun s => f s >>= fun a => .ok (g a, s) :=
  inspect_bind_onStore f fun a s => .ok (g a, s)

theorem lift_bind_pure (e : Except Halt α) (g : α → β) :
    (lift e >>= fun a => pure (g a)) = onStore fun s => e >>= fun a => .ok (g a, s) :=
  lift_bind_onStore e fun a s => .ok (g a, s)

theorem change_bind_pure (f : Store → α × Store) (g : α → β) :
    (change f >>= fun a => pure (g a)) = onStore fun s => .ok (g (f s).1, (f s).2) := rfl

theorem update_bind_pure (f : Store → Store) (b : β) :
    (update f >>= fun _ => pure b) = onStore fun s => .ok (b, f s) := rfl

/-- One change after another, neither of which is refused. -/
theorem update_bind_update (f g : Store → Store) :
    (update f >>= fun _ => update g) = onStore fun s => .ok ((), g (f s)) := rfl

theorem onStore_bind_pure (f : Store → Except Halt (α × Store)) (g : α → β) :
    (onStore f >>= fun a => pure (g a)) = onStore fun s => (f s).map fun r => (g r.1, r.2) := by
  funext s
  rw [bind_apply, onStore, onStore]
  cases f s.store with
  | ok r => rfl
  | error h => rfl

/-- What comes after a change and has no regard for what it gives. -/
theorem onStore_bind_congr {f : Store → Except Halt (α × Store)}
    {g : Store → Except Halt (β × Store)}
    (h : ∀ s, (f s).map Prod.snd = (g s).map Prod.snd) {γ : Type} (m : Run γ) :
    (onStore f >>= fun _ => m) = (onStore g >>= fun _ => m) := by
  funext s
  have hs := h s.store
  rw [bind_apply, bind_apply, onStore, onStore]
  cases hf : f s.store with
  | error k =>
      cases hg : g s.store with
      | error k' =>
          rw [hf, hg] at hs
          cases hs
          rfl
      | ok r =>
          rw [hf, hg] at hs
          cases hs
  | ok r =>
      cases hg : g s.store with
      | error k' =>
          rw [hf, hg] at hs
          cases hs
      | ok r' =>
          rw [hf, hg] at hs
          simp only [Except.map, Except.ok.injEq] at hs
          simp only [hs]

end Run

/-! ## Changes of lists -/

namespace Heap

/-- The heap with the item at an index replaced. -/
def set (h : Heap) (op : String) (id : Nat) (index : Int) (v : Value) : Except Halt Heap := do
  h.checkMutable op id
  let i ← h.position op id index
  pure (h.mapItems id (·.setIfInBounds i v))

/-- The heap with an item added at the end of a list. -/
def push (h : Heap) (op : String) (id : Nat) (v : Value) : Except Halt Heap := do
  h.checkMutable op id
  pure (h.mapItems id (·.push v))

/-- The last item of a list, and the heap without it. -/
def pop (h : Heap) (op : String) (id : Nat) : Except Halt (Value × Heap) := do
  h.checkMutable op id
  match (h.items id).back? with
  | some v => pure (v, h.mapItems id (·.pop))
  | none => throw (.refused op .emptyList)

end Heap

namespace Run

/-- An item is replaced as a whole or not at all. -/
theorem setItem_eq (op : String) (id : Nat) (index : Int) (v : Value) :
    setItem op id index v = onHeap fun h => h.set op id index v := by
  simp only [setItem, mapItems, update_eq_onStore, inspect_bind_onStore]
  exact congrArg onStore (funext fun s => except_bind_map fun _ => except_bind_map fun _ => rfl)

/-- An item is added as a whole or not at all. -/
theorem pushItem_eq (op : String) (id : Nat) (v : Value) :
    pushItem op id v = onHeap fun h => h.push op id v := by
  simp only [pushItem, mapItems, update_eq_onStore, inspect_bind_onStore]
  exact congrArg onStore (funext fun s => except_bind_map fun _ => rfl)

/-- The last item is taken off as a whole or not at all. -/
theorem popItem_eq (op : String) (id : Nat) :
    popItem op id
      = onStore fun s => (s.heap.pop op id).map fun r => (r.1, { s with heap := r.2 }) := by
  simp only [popItem, mapItems, update_bind_pure, inspect_bind_onStore]
  refine congrArg onStore (funext fun s => except_bind_map fun _ => ?_)
  unfold Heap.last
  cases (s.heap.items id).back? <;> rfl

end Run

/-! ## Writing a file -/

namespace Files

/-- A file that is opened to be written may stand where it stands. -/
theorem not_prefix_of_target {fs : Files} {path : String} {place : Place}
    (h : fs.target path = .ok place) : ¬ place <+: fs.directory := by
  intro hprefix
  unfold target at h
  split at h
  · cases h
  · split at h
    · cases h
    · rename_i hfree
      cases h
      exact hfree (if_pos hprefix)

theorem putEntry_putEntry (place : Place) (e e' : Entry) (entries : List (Place × Entry)) :
    putEntry place e' (putEntry place e entries) = putEntry place e' entries := by
  induction entries with
  | nil => simp [putEntry]
  | cons first rest ih =>
      obtain ⟨p, old⟩ := first
      by_cases hp : p = place
      · simp [putEntry, hp]
      · simp [putEntry, hp, ih]

/-- What is put at a place takes the place of what was put there before. -/
theorem put_put (fs : Files) (place : Place) (e e' : Entry) :
    (fs.put place e).put place e' = fs.put place e' := by
  unfold put
  rw [putEntry_putEntry]

theorem bytesAt_put {fs : Files} {place : Place} (h : ¬ place <+: fs.directory)
    (bytes : List UInt8) : (fs.put place (.file bytes)).bytesAt place = bytes := by
  rw [bytesAt, get?_put fs place place _ h, if_pos rfl]

/-- Bytes written to a file that has just been opened. -/
theorem extended_opened {fs : Files} {place : Place} (h : ¬ place <+: fs.directory)
    (append : Bool) (bytes : List UInt8) :
    (fs.opened place append).extended place bytes
      = fs.put place (.file ((if append then fs.bytesAt place else []) ++ bytes)) := by
  rw [extended, opened, bytesAt_put h, put_put]

end Files

namespace Native

/-- The files after a text has been written. -/
def writeText (files : Files) (path contents : String) (append : Bool) : Except Halt Files :=
  (openable files path).map fun place =>
    (files.opened place append).extended place (Utf8.encode contents.toList)

/-- A text written to a file. -/
def writeTo (path contents : String) (append : Value) : Run Unit :=
  Run.onStore fun s => do
    let append ← append.isTruthy s.heap
    checkPath path
    let files ← writeText s.files path contents append
    pure ((), { s with files })

/-- A file is opened and written as a whole or not at all. -/
theorem openFile_bind_writeAt (path contents : String) (append : Value) :
    (openFile path append >>= fun place => writeAt place contents)
      = writeTo path contents append := by
  simp only [openFile, writeAt, bind_assoc, pure_bind, Run.update_bind_update,
    Run.inspect_bind_onStore, Run.lift_bind_onStore]
  refine congrArg Run.onStore (funext fun s => ?_)
  cases append.isTruthy s.heap with
  | error h => rfl
  | ok b =>
      cases checkPath path with
      | error h => rfl
      | ok _ =>
          show _ = (writeText s.files path contents b >>= fun files => pure ((), { s with files }))
          unfold writeText
          cases openable s.files path <;> rfl

theorem openable_eq_ok {files : Files} {path : String} {place : Place} :
    openable files path = .ok place ↔ files.target path = .ok place := by
  unfold openable
  cases files.target path with
  | error e => exact ⟨nofun, nofun⟩
  | ok p => simp

/-- To open a file is to write nothing to it. -/
theorem writeText_empty (files : Files) (path : String) (append : Bool) :
    writeText files path "" append = (openable files path).map (files.opened · append) := by
  unfold writeText
  cases hplace : openable files path with
  | error h => rfl
  | ok place =>
      have hfree := Files.not_prefix_of_target (openable_eq_ok.1 hplace)
      have hbytes : Utf8.encode "".toList = [] := rfl
      show Except.ok ((files.opened place append).extended place _)
        = .ok (files.opened place append)
      rw [hbytes, Files.extended_opened hfree, List.append_nil, Files.opened]

/-- A file is opened as a whole or not at all. -/
theorem openFile_eq (path : String) (append : Value) :
    openFile path append = Run.onStore fun s =>
      append.isTruthy s.heap >>= fun append => checkPath path >>= fun _ =>
        (openable s.files path).map fun place =>
          (place, { s with files := s.files.opened place append }) := by
  simp only [openFile, Run.update_bind_pure, Run.inspect_bind_onStore, Run.lift_bind_onStore]
  rfl

/-- So a file that is opened, and no more, is written nothing to. -/
theorem openFile_bind {α : Type} (path : String) (append : Value) (m : Run α) :
    (openFile path append >>= fun _ => m) = (writeTo path "" append >>= fun _ => m) := by
  rw [openFile_eq]
  refine Run.onStore_bind_congr (fun s => ?_) m
  cases append.isTruthy s.heap with
  | error h => rfl
  | ok b =>
      cases checkPath path with
      | error h => rfl
      | ok _ =>
          show _ = (writeText s.files path "" b >>= fun files => pure ((), { s with files })).map _
          rw [writeText_empty]
          cases openable s.files path <;> rfl

/-! ## Native functions -/

/-- A new list of texts, and the store with it. -/
def textList (s : Store) (pieces : List (List Char)) : Option Value × Store :=
  let (v, s) := s.newList (pieces.map fun p => .text (String.ofList p))
  (some v, s)

/-- The effect of a call with arguments that have been checked, unless it writes a file. -/
def effect (f : Native) (args : List Value) (s : Store) : Except Halt (Option Value × Store) :=
  match f, args with
  | .print, [v] => do
    let shown ← v.format s.heap
    pure (some v, s.print shown)
  | .printLine, [v] => do
    let shown ← v.format s.heap
    pure (some v, s.print (shown ++ "\n"))
  | .input, [] => do
    s.checkLine
    pure (some (.text s.readLine.1), s.readLine.2)
  | .stringSplit, [.text target, .text delimiter] =>
    .ok (textList s (splitPieces target.toList delimiter.toList))
  | .stringSplit, [.text target, .missingText] => .ok (textList s (innerWords target.toList))
  | .stringSplit, [.missingText, .text delimiter] =>
    .error (.crash (.noText (if delimiter.isEmpty then .spelling else .splitting)))
  | .stringSplit, [.missingText, .missingText] => .error (.crash (.noText .splitting))
  | .toAscii, [.int code] => do
    let v ← asciiText code
    pure (some v, s)
  | .fromAscii, [.text t] => do
    let v ← asciiCode t
    pure (some v, s)
  | .fromAscii, [.missingText] => .error (.crash (.noText .length))
  | .arraySet, [.list id, .int index, v] => do
    let heap ← s.heap.set "array-set" id index v
    pure (none, { s with heap })
  | .arrayPush, [.list id, v] => do
    let heap ← s.heap.push "array-push" id v
    pure (none, { s with heap })
  | .arrayPop, [.list id] => do
    let (v, heap) ← s.heap.pop "array-pop" id
    pure (v.present?, { s with heap })
  | .arrayGet, [.list id, .int index] => do
    let v ← s.heap.get "array-get" id index
    let v ← v.copy
    pure (some v, s)
  | .arrayLength, [.list id] => do
    let v ← Value.integer "integer" (s.heap.length id)
    pure (some v, s)
  | .readFile, [.text path] => do
    checkPath path
    let text ← readText s.files path
    pure (some (.text text), s)
  | .readFile, [.missingText] => .error (.crash (.noText .path))
  | .getArgs arguments, [] =>
    let (v, s) := s.newList (arguments.map .text)
    .ok (some v, s)
  | f, args => .error (.arity f.name f.signature.length args.length)

/-- A call with arguments that have been checked, its effect being made as a whole. Only the missing
    text interrupts a write, when the file is there: it is empty unless it was to be appended to. -/
def atOnce (f : Native) (args : List Value) : Run (Option Value) :=
  match f, args with
  | .writeFile, [.text path, .text contents, append] => do
    writeTo path contents append
    pure none
  | .writeFile, [.text path, .missingText, append] => do
    writeTo path "" append
    Run.halt (.crash (.noText .contents))
  | .writeFile, [.missingText, _, append] => do
    let heap ← Run.read (·.store.heap)
    let _ ← Run.lift (append.isTruthy heap)
    Run.halt (.crash (.noText .path))
  | f, args => Run.onStore (effect f args)

/-- The steps of a native function are its effect as a whole. -/
theorem perform_eq (f : Native) (args : List Value) : f.perform args = f.atOnce args := by
  unfold perform
  split
  all_goals try simp only [newTexts, Run.setItem_eq, Run.pushItem_eq, Run.popItem_eq, Run.onHeap,
    Run.onStore_bind_pure, Run.change_bind_pure, Run.update_bind_pure, Run.inspect_bind_pure,
    Run.lift_bind_pure, Run.inspect_bind_onStore, Run.lift_bind_onStore]
  all_goals try rfl
  -- what is left are changes of lists, writes, and arguments that do not fit
  case h_11 id index v =>
      refine congrArg Run.onStore (funext fun s => ?_)
      show _ = (s.heap.set "array-set" id index v >>= fun heap => pure (none, { s with heap }))
      cases s.heap.set "array-set" id index v <;> rfl
  case h_12 id v =>
      refine congrArg Run.onStore (funext fun s => ?_)
      show _ = (s.heap.push "array-push" id v >>= fun heap => pure (none, { s with heap }))
      cases s.heap.push "array-push" id v <;> rfl
  case h_13 id =>
      refine congrArg Run.onStore (funext fun s => ?_)
      show _ = (s.heap.pop "array-pop" id >>= fun r => pure (r.1.present?, { s with heap := r.2 }))
      cases s.heap.pop "array-pop" id <;> rfl
  case h_16 path contents append =>
      rw [← bind_assoc, openFile_bind_writeAt]
      rfl
  case h_17 path append => exact openFile_bind path append _
  case h_18 append =>
      funext s
      show (Run.inspect _ >>= fun _ => Run.halt _) s = (Run.lift _ >>= fun _ => Run.halt _) s
      rw [Run.bind_apply, Run.bind_apply, Run.inspect]
      cases append.isTruthy s.store.heap <;> rfl
  case h_22 =>
      have heffect : ∀ s,
          effect f args s = .error (.arity f.name f.signature.length args.length) := by
        intro s
        rw [effect]
        all_goals assumption
      have hwhole : f.atOnce args = Run.onStore (effect f args) := by
        rw [atOnce]
        all_goals assumption
      rw [hwhole, funext heffect]
      rfl

end Native

end TagScript
