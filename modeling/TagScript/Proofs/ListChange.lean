import TagScript.Proofs.Environments.Root
import TagScript.Proofs.Eval.Frame
import TagScript.Proofs.Eval.Operands

set_option autoImplicit false

/-! # Changes of lists

An item of a list is replaced, or one is added, by an instruction or by a call of a native function.
Both evaluate the operands from left to right, find out what they ask for (`ListChange.request?`)
and hand it to the list, which makes the change or refuses it (`Request.refusal?`). So they have the
same effect and fail alike, in words that differ in the name of the operation
(`ListChange.Agree`). -/

namespace TagScript

/-- A change of a list, by its operands. -/
inductive ListChange where
  /-- The item at an index is replaced. -/
  | set (array index value : Instr)
  /-- An item is added at the end. -/
  | push (array value : Instr)

namespace ListChange

def operands : ListChange → List Instr
  | set array index value => [array, index, value]
  | push array value => [array, value]

/-- The kind of the instruction that makes the change. -/
def kind : ListChange → Kind
  | set .. => .arraySet
  | push .. => .arrayPush

/-- The operation that the instruction names when it is refused. -/
def operation : ListChange → String
  | set .. => "assign-array"
  | push .. => "insert-array"

/-- The name of the function that makes the change. -/
def function : ListChange → String
  | set .. => "array-set"
  | push .. => "array-push"

def native : ListChange → Native
  | set .. => .arraySet
  | push .. => .arrayPush

/-- The instruction that makes the change. -/
def instr (c : ListChange) (span : Option Span) : Instr := .mk c.kind none c.operands [] [] span

/-- The call that makes the change. -/
def call (c : ListChange) (span : Option Span) : Instr :=
  .mk .callNamed (some c.function) c.operands [] [] span

/-! ## Requests -/

/-- What is asked of a list: to have an index, if one is given, and to change its items. -/
structure Request where
  id : Nat
  index? : Option Int
  items : Array Value → Array Value

/-- What the values of the operands ask for, if they are of the right types. -/
def request? : ListChange → List Value → Option Request
  | set .., [.list id, .int n, v] => some ⟨id, some n, (·.setIfInBounds n.toNat v)⟩
  | push .., [.list id, v] => some ⟨id, none, (·.push v)⟩
  | _, _ => none

namespace Request

/-- Why the list refuses: it is being iterated, or it does not have the index. -/
def refusal? (r : Request) (h : Heap) : Option Reason :=
  if h.iterations r.id ≠ 0 then some .iterated
  else match r.index? with
    | none => none
    | some n => if 0 ≤ n ∧ n < h.length r.id then none else some (.outOfBounds n (h.length r.id))

/-- The state after the change. -/
def apply (r : Request) (s : State) : State :=
  { s with store := { s.store with heap := s.store.heap.mapItems r.id r.items } }

/-- The heap after the change, or the refusal under the name of an operation. -/
def change (r : Request) (op : String) (h : Heap) : Except Halt Heap :=
  match r.refusal? h with
  | some reason => .error (.refused op reason)
  | none => .ok (h.mapItems r.id r.items)

end Request

/-! ## What lists do -/

namespace Request

theorem set_eq (h : Heap) (op : String) (id : Nat) (n : Int) (v : Value) :
    h.set op id n v = (⟨id, some n, (·.setIfInBounds n.toNat v)⟩ : Request).change op h := by
  unfold Heap.set Heap.checkMutable Heap.position change refusal?
  by_cases hlocked : h.iterations id = 0
  · by_cases hindex : 0 ≤ n ∧ n < h.length id
    · simp only [hlocked, hindex]
      rfl
    · simp only [hlocked, hindex]
      rfl
  · rw [if_neg hlocked, if_pos hlocked]
    rfl

theorem push_eq (h : Heap) (op : String) (id : Nat) (v : Value) :
    h.push op id v = (⟨id, none, (·.push v)⟩ : Request).change op h := by
  unfold Heap.push Heap.checkMutable change refusal?
  by_cases hlocked : h.iterations id = 0
  · simp only [hlocked]
    rfl
  · rw [if_neg hlocked, if_pos hlocked]
    rfl

end Request

/-! ## Agreement -/

/-- What a function refuses arguments with that are not of its types. -/
inductive RefusesTypes (function : String) : Halt → Prop where
  | wrongType (what expected : String) (v : Value) :
      RefusesTypes function (.wrongType function what expected v)
  | arity (expected actual : Int) : RefusesTypes function (.arity function expected actual)

/-- Why the instruction and the call halt: for the same reason, but for the names of the
    operations. -/
inductive Matches (c : ListChange) : Halt → Halt → Prop where
  /-- An operand halts. -/
  | operand (h : Halt) : Matches c h h
  /-- An operand gives no value. -/
  | noValue : Matches c (.refused c.operation .noValue) (.refused "call" .noValue)
  /-- The value of an operand is of the wrong type. -/
  | wrongType (what what' expected : String) (v : Value) :
      Matches c (.wrongType c.operation what expected v) (.wrongType c.function what' expected v)
  /-- A value of an unknown type is tagged with the type that is expected. -/
  | mistagged (what tag : String) {h : Halt} : RefusesTypes c.function h →
      Matches c (.wrongType c.operation what tag (.other tag)) h
  /-- The list refuses the change. -/
  | refused (reason : Reason) :
      Matches c (.refused c.operation reason) (.refused c.function reason)

/-- The instruction at one place and the call at another give no value and end in the same state, or
    they halt in the same state, and for matching reasons, or neither ends. -/
inductive Agree {σ : Type} (c : ListChange) (span span' : Option Span) :
    Outcome σ (Option Value) → Outcome σ (Option Value) → Prop where
  | done (s : σ) : Agree c span span' (.done none s) (.done none s)
  | halted {h h' : Halt} (s : σ) : c.Matches h h' →
      Agree c span span' (.halted (h.locate span) s) (.halted (h'.locate span') s)
  | outOfFuel : Agree c span span' .outOfFuel .outOfFuel

variable {c : ListChange} {vs : List Value} {r : Request}

theorem Matches.agree {h h' : Halt} (hmatch : c.Matches h h') (t : State) :
    Agree c none none (.halted h t) (.halted h' t) := by
  have hagree : Agree c none none (.halted (h.locate none) t) (.halted (h'.locate none) t) :=
    .halted t hmatch
  rwa [Halt.locate_none, Halt.locate_none] at hagree

theorem Agree.located {m m' : Run (Option Value)} {s : State} (h : Agree c none none (m s) (m' s))
    (span span' : Option Span) :
    Agree c span span' (Run.located span m s) (Run.located span' m' s) := by
  unfold Run.located
  generalize m s = o, m' s = o' at h
  cases h with
  | done t => exact .done t
  | halted t hmatch =>
      simp only [Halt.locate_none]
      exact .halted t hmatch
  | outOfFuel => exact .outOfFuel

theorem Agree.mapState {σ τ : Type} {span span' : Option Span} {o o' : Outcome σ (Option Value)}
    (h : Agree c span span' o o') (f : σ → τ) :
    Agree c span span' (o.mapState f) (o'.mapState f) := by
  cases h with
  | done t => exact .done (f t)
  | halted t hmatch => exact .halted (f t) hmatch
  | outOfFuel => exact .outOfFuel

/-! ## With the values of the operands -/

/-- The run that makes the change, or is refused under the name of an operation. -/
def Request.run (r : Request) (op : String) : Run (Option Value) := fun t =>
  match r.refusal? t.store.heap with
  | some reason => .halted (.refused op reason) t
  | none => .done none (r.apply t)

theorem Request.run_agree (r : Request) (t : State) :
    Agree c none none (r.run c.operation t) (r.run c.function t) := by
  unfold run
  split
  · exact (Matches.refused _).agree t
  · exact .done _

theorem Request.onHeap_change (r : Request) (op : String) :
    (Run.onHeap (r.change op) >>= fun _ => pure none) = r.run op := by
  funext t
  simp only [Run.bind_apply, Run.onHeap, Run.onStore, change, run]
  cases r.refusal? t.store.heap with
  | none => rfl
  | some reason => rfl

/-- To replace an item, or to add one, is to ask the list for it. -/
theorem Request.setItem_run (op : String) (id : Nat) (n : Int) (v : Value) :
    (Run.setItem op id n v >>= fun _ => pure none)
      = (⟨id, some n, (·.setIfInBounds n.toNat v)⟩ : Request).run op := by
  rw [← onHeap_change, Run.setItem_eq]
  simp only [set_eq]

theorem Request.pushItem_run (op : String) (id : Nat) (v : Value) :
    (Run.pushItem op id v >>= fun _ => pure none)
      = (⟨id, none, (·.push v)⟩ : Request).run op := by
  rw [← onHeap_change, Run.pushItem_eq]
  simp only [push_eq]

/-- What the instruction does with the values of its operands. -/
def finish : ListChange → List Value → Run (Option Value)
  | set .., vs =>
    match vs with
    | [array, index, v] => do
      let id ← Eval.listId "assign-array" array
      match index with
      | .int n =>
        Run.setItem "assign-array" id n v
        pure none
      | other => Run.halt (.wrongType "assign-array" "index" "Integer" other)
    | vs => Run.lift (Eval.wrongCount 3 vs)
  | push .., vs =>
    match vs with
    | [array, v] => do
      let id ← Eval.listId "insert-array" array
      Run.pushItem "insert-array" id v
      pure none
    | vs => Run.lift (Eval.wrongCount 2 vs)

theorem perform_instr (opts : Options) (ev : Evaluator) (fuel : Nat) (outer : List Frame)
    (c : ListChange) (span : Option Span) :
    Eval.perform opts ev fuel outer (c.instr span)
      = Eval.values (ev outer) c.operation c.operands >>= c.finish := by
  cases c <;> rfl

theorem finish_of_request (h : c.request? vs = some r) : c.finish vs = r.run c.operation := by
  unfold request? at h
  split at h
  · cases h
    exact Request.setItem_run _ _ _ _
  · cases h
    exact Request.pushItem_run _ _ _
  · cases h

theorem call_of_request (h : c.request? vs = some r) : c.native.call vs = r.run c.function := by
  unfold request? at h
  split at h
  · cases h
    exact Request.setItem_run _ _ _ _
  · cases h
    exact Request.pushItem_run _ _ _
  · cases h

/-! ## Values of the wrong types -/

/-- A value is a list, or tagged as one, or refused as an operand and as an argument. -/
theorem list_cases (v : Value) :
    (∃ id, v = .list id) ∨ v = .other "List" ∨
      v.type? ≠ some "List" ∧
        ∀ op, Eval.listId op v = Run.halt (.wrongType op "array" "List" v) := by
  cases v with
  | list id => exact .inl ⟨id, rfl⟩
  | other tag =>
      by_cases htag : tag = "List"
      · exact .inr (.inl (congrArg _ htag))
      · exact .inr (.inr ⟨fun h => htag (Option.some.inj h), fun op => rfl⟩)
  | _ => exact .inr (.inr ⟨by simp [Value.type?], fun op => rfl⟩)

/-- A value is an integer, or tagged as one, or refused as an argument and none where an integer is
    told from other values. -/
theorem int_cases (v : Value) :
    (∃ n, v = .int n) ∨ v = .other "Integer" ∨
      v.type? ≠ some "Integer" ∧ ∀ {α : Type} (f : Int → α) (g : Value → α),
        (match v with | .int n => f n | other => g other) = g v := by
  cases v with
  | int n => exact .inl ⟨n, rfl⟩
  | other tag =>
      by_cases htag : tag = "Integer"
      · exact .inr (.inl (congrArg _ htag))
      · exact .inr (.inr ⟨fun h => htag (Option.some.inj h), fun f g => rfl⟩)
  | _ => exact .inr (.inr ⟨by simp [Value.type?], fun f g => rfl⟩)

theorem call_of_checkTypes (f : Native) (args : List Value) {h : Halt}
    (hlength : args.length = f.signature.length)
    (hcheck : checkTypes f.name 1 args f.signature = .error h) (t : State) :
    f.call args t = .halted h t := by
  have hargs : checkArguments f.name args f.signature = .error h := by
    rw [checkArguments, if_pos hlength, hcheck]
  rw [Native.call, hargs]
  rfl

theorem agree_of_request (h : c.request? vs = some r) (t : State) :
    Agree c none none (c.finish vs t) (c.native.call vs t) := by
  rw [finish_of_request h, call_of_request h]
  exact r.run_agree t

theorem push_agree {array value : Instr} (list v : Value) (t : State) :
    Agree (push array value) none none ((push array value).finish [list, v] t)
      (Native.arrayPush.call [list, v] t) := by
  rcases list_cases list with ⟨id, rfl⟩ | rfl | ⟨hlist, hid⟩
  · exact agree_of_request rfl t
  · exact (Matches.mistagged "array" "List" (.arity 2 2)).agree t
  · have hfinish : (push array value).finish [list, v] t
        = .halted (.wrongType "insert-array" "array" "List" list) t := by
      simp only [finish, hid]
      rfl
    rw [hfinish, call_of_checkTypes .arrayPush [list, v] rfl (if_neg hlist)]
    exact (Matches.wrongType ..).agree t

theorem set_agree {array index value : Instr} (list position v : Value) (t : State) :
    Agree (set array index value) none none ((set array index value).finish [list, position, v] t)
      (Native.arraySet.call [list, position, v] t) := by
  have hcheck : position.type? ≠ some "Integer" →
      checkTypes "array-set" 2 [position, v] [some "Integer", none]
        = .error (.wrongType "array-set" ("argument " ++ integerText 2) "Integer" position) :=
    fun hint => if_neg hint
  rcases list_cases list with ⟨id, rfl⟩ | rfl | ⟨hlist, hid⟩
  · rcases int_cases position with ⟨n, rfl⟩ | rfl | ⟨hint, hmatch⟩
    · exact agree_of_request rfl t
    · exact (Matches.mistagged "index" "Integer" (.arity 3 3)).agree t
    · have hfinish : (set array index value).finish [.list id, position, v] t
          = .halted (.wrongType "assign-array" "index" "Integer" position) t := by
        simp only [finish, hmatch]
        rfl
      rw [hfinish, call_of_checkTypes .arraySet [.list id, position, v] rfl (hcheck hint)]
      exact (Matches.wrongType ..).agree t
  · -- the call goes on to look at the index
    obtain ⟨h, hrefuses, hcall⟩ : ∃ h, RefusesTypes "array-set" h ∧
        Native.arraySet.call [.other "List", position, v] t = .halted h t := by
      rcases int_cases position with ⟨n, rfl⟩ | rfl | ⟨hint, -⟩
      · exact ⟨_, .arity 3 3, rfl⟩
      · exact ⟨_, .arity 3 3, rfl⟩
      · exact ⟨_, .wrongType _ _ _,
          call_of_checkTypes .arraySet [.other "List", position, v] rfl (hcheck hint) t⟩
    rw [hcall]
    exact (Matches.mistagged (c := set array index value) "array" "List" hrefuses).agree t
  · have hfinish : (set array index value).finish [list, position, v] t
        = .halted (.wrongType "assign-array" "array" "List" list) t := by
      simp only [finish, hid]
      rfl
    rw [hfinish, call_of_checkTypes .arraySet [list, position, v] rfl (if_neg hlist)]
    exact (Matches.wrongType ..).agree t

/-! ## The instruction and the call -/

/-- The root of an environment has the native function under its name. -/
def InRoot (c : ListChange) (frame : Frame) (outer : List Frame) : Prop :=
  ((frame.root outer).bindings.get? (some c.function)).bind Value.present? = some (.native c.native)

/-- The call evaluates the operands and then calls the native function. -/
theorem perform_call {opts : Options} (hdebug : opts.debug = false) (ev : Evaluator) (fuel : Nat)
    (outer : List Frame) (c : ListChange) (span : Option Span) {s t : State} {vs : List Value}
    (hvs : Eval.values (ev outer) "call" c.operands s = .done vs t)
    (hroot : c.InRoot t.frame outer) :
    Eval.perform opts ev fuel outer (c.call span) s = c.native.call vs t := by
  have hfunction : ((t.frame.root outer).bindings.get? (c.call span).value).bind Value.present?
      = some (.native c.native) := hroot
  show Eval.callNamed opts ev outer (c.call span) s = _
  unfold Eval.callNamed
  refine (Run.bind_done hvs).trans ?_
  rw [Run.read_bind]
  simp only [hfunction, Eval.callValue, hdebug]
  rfl

theorem finish_agree {t : State} (hlength : vs.length = c.operands.length) :
    Agree c none none (c.finish vs t) (c.native.call vs t) := by
  cases c with
  | set array index value =>
      match vs, hlength with
      | [list, position, v], _ => exact set_agree list position v t
  | push array value =>
      match vs, hlength with
      | [list, v], _ => exact push_agree list v t

theorem perform_agree {opts : Options} (hdebug : opts.debug = false) (fuel : Nat)
    (outer : List Frame) (c : ListChange) (span span' : Option Span) {s : State}
    (hroot : c.InRoot s.frame outer) :
    Agree c none none (Eval.perform opts (eval opts fuel) fuel outer (c.instr span) s)
      (Eval.perform opts (eval opts fuel) fuel outer (c.call span') s) := by
  have hsame := Eval.sameValues (eval opts fuel outer) c.operation "call" c.operands s
  rw [perform_instr]
  generalize hinstr : Eval.values (eval opts fuel outer) c.operation c.operands s = o,
    hcall : Eval.values (eval opts fuel outer) "call" c.operands s = o' at hsame
  cases hsame with
  | done vs t =>
      -- the operands gave values, so that the root is the same after them
      have hafter : c.InRoot t.frame outer := by rwa [values_frame hcall]
      rw [Run.bind_done hinstr, perform_call hdebug _ _ _ _ _ hcall hafter]
      exact finish_agree (Eval.length_of_values hcall)
  | halted h t =>
      rw [Run.bind_halted hinstr]
      have hhalted : Eval.perform opts (eval opts fuel) fuel outer (c.call span') s = .halted h t :=
        Run.bind_halted hcall
      rw [hhalted]
      exact (Matches.operand h).agree t
  | noValue t =>
      rw [Run.bind_halted hinstr]
      have hhalted : Eval.perform opts (eval opts fuel) fuel outer (c.call span') s
          = .halted (.refused "call" .noValue) t := Run.bind_halted hcall
      rw [hhalted]
      exact Matches.noValue.agree t
  | outOfFuel =>
      rw [Run.bind_outOfFuel hinstr]
      have hout : Eval.perform opts (eval opts fuel) fuel outer (c.call span') s = .outOfFuel :=
        Run.bind_outOfFuel hcall
      rw [hout]
      exact .outOfFuel

/-- With values that ask for a change both make it or are refused. -/
theorem eval_of_request {opts : Options} (hdebug : opts.debug = false) {fuel : Nat}
    {outer : List Frame} {s t : State} (hs : s.Open) (hroot : c.InRoot s.frame outer)
    (hvs : Eval.values (eval opts fuel outer) "call" c.operands s = .done vs t)
    (hr : c.request? vs = some r) (span span' : Option Span) :
    eval opts (fuel + 1) outer (c.instr span) s = Run.located span (r.run c.operation) t ∧
    eval opts (fuel + 1) outer (c.call span') s = Run.located span' (r.run c.function) t := by
  have hlocated : ∀ {m : Run (Option Value)} {m' : Run (Option Value)} (place : Option Span),
      m s = m' t → Run.located place m s = Run.located place m' t := by
    intro m m' place h
    unfold Run.located
    rw [h]
  rw [eval_of_open opts fuel outer _ hs, eval_of_open opts fuel outer _ hs,
    State.traced_of_not_debug hdebug, State.traced_of_not_debug hdebug]
  refine ⟨hlocated span ?_, hlocated span' ?_⟩
  · rw [perform_instr, Run.bind_done (Eval.values_of_values c.operation hvs), finish_of_request hr]
  · rw [← values_frame hvs] at hroot
    rw [perform_call hdebug _ _ _ _ _ hvs hroot, call_of_request hr]

theorem eval_agree {opts : Options} (hdebug : opts.debug = false) (fuel : Nat)
    (outer : List Frame) (c : ListChange) (span span' : Option Span) {s : State}
    (hroot : c.InRoot s.frame outer) :
    Agree c span span' (eval opts fuel outer (c.instr span) s)
      (eval opts fuel outer (c.call span') s) := by
  cases fuel with
  | zero => exact .outOfFuel
  | succ fuel =>
      by_cases hs : s.Open
      · rw [eval_of_open opts fuel outer _ hs, eval_of_open opts fuel outer _ hs,
          State.traced_of_not_debug hdebug, State.traced_of_not_debug hdebug]
        exact (perform_agree hdebug fuel outer c span span' hroot).located span span'
      · rw [eval_of_not_open opts fuel outer _ hs, eval_of_not_open opts fuel outer _ hs]
        exact .done s

/-! ## In a run of a program -/

/-- In an environment of a session the instruction and the call have the same effect, the change
    that the values of the operands ask for, or fail alike. -/
structure SameIn (c : ListChange) (opts : Options) (s : Session) (k : Nat) : Prop where
  agree : ∀ fuel span span', Agree c span span' (s.evaluate opts fuel k (c.instr span))
    (s.evaluate opts fuel k (c.call span'))
  accepted : ∀ fuel span span' vs r t, (s.state k).Open →
    Eval.values (eval opts fuel (s.outer k)) "call" c.operands (s.state k) = .done vs t →
    c.request? vs = some r → r.refusal? t.store.heap = none →
    s.evaluate opts (fuel + 1) k (c.instr span) = .done none (s.withState k (r.apply t)) ∧
    s.evaluate opts (fuel + 1) k (c.call span') = .done none (s.withState k (r.apply t))
  refused : ∀ fuel span span' vs r t reason, (s.state k).Open →
    Eval.values (eval opts fuel (s.outer k)) "call" c.operands (s.state k) = .done vs t →
    c.request? vs = some r → r.refusal? t.store.heap = some reason →
    s.evaluate opts (fuel + 1) k (c.instr span)
        = .halted (.fault (.operation c.operation reason) span) (s.withState k t) ∧
    s.evaluate opts (fuel + 1) k (c.call span')
        = .halted (.fault (.operation c.function reason) span') (s.withState k t)

/-- The functions that change lists are in the library. -/
theorem resolve_function {p : Program} (hset : ¬ p.Defines "array-set")
    (hpush : ¬ p.Defines "array-push") (arguments : List String) (c : ListChange) :
    p.resolve arguments (some c.function) = some (.native c.native) := by
  cases c with
  | set array index value => exact (Program.resolve_of_not_defines hset arguments).trans rfl
  | push array value => exact (Program.resolve_of_not_defines hpush arguments).trans rfl

theorem sameIn {p : Program} (hset : ¬ p.Defines "array-set") (hpush : ¬ p.Defines "array-push")
    {opts : Options} (hdebug : opts.debug = false) {arguments : List String} {number : Nat}
    {s : Session} (hs : s.InProgram p arguments number) {k : Nat} (hk : k < s.environments.size)
    (c : ListChange) : c.SameIn opts s k := by
  have hroot : c.InRoot (s.frame k) (s.outer k) := by
    rw [InRoot, hs.frame_root_of_lt hk, Program.get?_ofProgram, resolve_function hset hpush]
  refine ⟨fun fuel span span' => ?_, fun fuel span span' vs r t hs hvs hr hrefusal => ?_,
    fun fuel span span' vs r t reason hs hvs hr hrefusal => ?_⟩
  · exact (eval_agree hdebug fuel (s.outer k) c span span' hroot).mapState (s.withState k)
  · obtain ⟨hinstr, hcall⟩ := eval_of_request hdebug hs hroot hvs hr span span'
    rw [Session.evaluate, Session.evaluate, Session.perform_eq, Session.perform_eq, hinstr, hcall]
    simp only [Run.located, Request.run, hrefusal]
    exact ⟨rfl, rfl⟩
  · obtain ⟨hinstr, hcall⟩ := eval_of_request hdebug hs hroot hvs hr span span'
    rw [Session.evaluate, Session.evaluate, Session.perform_eq, Session.perform_eq, hinstr, hcall]
    simp only [Run.located, Request.run, hrefusal]
    exact ⟨rfl, rfl⟩

end ListChange

/-- In a program that does not define the functions under which the library changes lists, the
    instruction that makes a change of a list and the call of the function that makes it agree at
    every moment of a run, in every environment: they give no value or halt, and leave the same
    state. If the operands have values of the right types, the list makes the change, or it refuses
    both, for the same reason, under the name of the operation. -/
theorem list_changes_agree {p : Program} (hset : ¬ p.Defines "array-set")
    (hpush : ¬ p.Defines "array-push") (arguments : List String) :
    (∀ (opts : Options) fuel store depth alarm,
      let same := fun _ (s : Session) => ∀ (opts : Options) (c : ListChange),
        opts.debug = false → ∀ k < s.environments.size, c.SameIn opts s k
      let start := { Session.start p arguments store with depth }
      Linked.run opts (Linked.alarmUnless same alarm) fuel p 1 start
        = start.perform 1 (p.run opts fuel arguments)) ∧
    ∀ number s, s.InProgram p arguments number →
      ∀ (opts : Options) (c : ListChange), opts.debug = false →
        ∀ k < s.environments.size, c.SameIn opts s k := by
  have hsame : ∀ number (s : Session), s.InProgram p arguments number →
      ∀ (opts : Options) (c : ListChange), opts.debug = false →
        ∀ k < s.environments.size, c.SameIn opts s k :=
    fun number s hs opts c hdebug k hk => ListChange.sameIn hset hpush hdebug hs hk c
  exact ⟨fun opts fuel store depth alarm => Linked.run_eq opts fuel p arguments store depth
    fun number s hs => if_pos (hsame number s hs), hsame⟩

/-- A program that defines another function. -/
def lister : Program where
  functions := [⟨"lister", [], [], ⟨"", 1, 1, 1, 1⟩⟩]
  main := []

/-- Two lists of one item, the first of which is being iterated. -/
def lists : Session :=
  (Session.start lister [] {}).withState 1
    { frame := (({} : Frame).bind (some "locked") (.list 0)).bind (some "free") (.list 1)
      store := { heap := ⟨#[⟨#[.int 1], 1⟩, ⟨#[.int 1], 0⟩]⟩ } }

def addToLocked : ListChange :=
  .push (.mk .value (some "locked") [] [] [] none) (.mk .integer (some "2") [] [] [] none)

def setBeyondEnd : ListChange :=
  .set (.mk .value (some "free") [] [] [] none) (.mk .integer (some "1") [] [] [] none)
    (.mk .integer (some "2") [] [] [] none)

/-- A list that is being iterated, and an index that a list does not have. -/
theorem list_changes_agree_refusals :
    lists.evaluate {} 9 1 (addToLocked.instr none)
        = .halted (.fault (.operation "insert-array" .iterated) none) lists ∧
    lists.evaluate {} 9 1 (addToLocked.call none)
        = .halted (.fault (.operation "array-push" .iterated) none) lists ∧
    lists.evaluate {} 9 1 (setBeyondEnd.instr none)
        = .halted (.fault (.operation "assign-array" (.outOfBounds 1 1)) none) lists ∧
    lists.evaluate {} 9 1 (setBeyondEnd.call none)
        = .halted (.fault (.operation "array-set" (.outOfBounds 1 1)) none) lists := by
  have hdefines : ∀ name, name ≠ "lister" → ¬ lister.Defines name := by
    rintro name hname ⟨d, hd, rfl⟩
    cases List.mem_singleton.1 hd
    exact hname rfl
  have hprogram : lists.InProgram lister [] 1 :=
    (Session.InProgram.invariant lister []).withState _ (Session.InProgram.start lister [] {} 0)
  have hsame := (list_changes_agree (hdefines "array-set" (by decide))
    (hdefines "array-push" (by decide)) []).2 1 lists hprogram {}
  have hpush := (hsame addToLocked rfl 1 (by decide)).refused 8 none none [.list 0, .int 2]
    ⟨0, none, (·.push (.int 2))⟩ (lists.state 1) .iterated rfl rfl rfl rfl
  have hset := (hsame setBeyondEnd rfl 1 (by decide)).refused 8 none none [.list 1, .int 1, .int 2]
    ⟨1, some 1, (·.setIfInBounds 1 (.int 2))⟩ (lists.state 1) (.outOfBounds 1 1) rfl rfl rfl rfl
  rw [Session.withState_state] at hpush hset
  exact ⟨hpush.1, hpush.2, hset.1, hset.2⟩

end TagScript
