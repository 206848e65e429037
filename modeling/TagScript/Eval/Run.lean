import TagScript.Eval.Frame
import TagScript.Store

set_option autoImplicit false

/-! # Runs

A run goes from state to state. It is done with a result, or it halts, and in both cases the state
it has reached survives; or its fuel does not suffice to tell. -/

namespace TagScript

/-- What a run can read and change: the innermost frame, the store, and the number of calls of
    program functions in progress. -/
structure State where
  frame : Frame := {}
  store : Store := {}
  depth : Nat := 0
  deriving Repr, Inhabited

/-- The outcome of a run that ends in states of type `σ`. -/
inductive Outcome (σ α : Type) where
  | done (a : α) (s : σ)
  | halted (h : Halt) (s : σ)
  | outOfFuel

namespace Outcome

variable {σ τ α : Type}

/-- The outcome with another view of its state. -/
def mapState (f : σ → τ) : Outcome σ α → Outcome τ α
  | .done a s => .done a (f s)
  | .halted h s => .halted h (f s)
  | .outOfFuel => .outOfFuel

/-- Whether the run came to an end. -/
def finished : Outcome σ α → Bool
  | .outOfFuel => false
  | _ => true

end Outcome

/-- A run with a result of type `α`. -/
def Run (α : Type) : Type := State → Outcome State α

namespace Run

variable {α β : Type}

/-- The run that does nothing. -/
protected def pure (a : α) : Run α := fun s => .done a s

/-- One run after another. -/
protected def bind (m : Run α) (f : α → Run β) : Run β := fun s =>
  match m s with
  | .done a s => f a s
  | .halted h s => .halted h s
  | .outOfFuel => .outOfFuel

instance : Monad Run where
  pure := Run.pure
  bind := Run.bind

@[simp] theorem pure_apply (a : α) (s : State) : (pure a : Run α) s = .done a s := rfl

theorem bind_apply (m : Run α) (f : α → Run β) (s : State) :
    (m >>= f) s = match m s with
      | .done a s => f a s
      | .halted h s => .halted h s
      | .outOfFuel => .outOfFuel := rfl

/-- Runs obey the laws of a monad, so that blocks of runs may be regrouped. -/
instance : LawfulMonad Run := LawfulMonad.mk' Run
  (by
    intro α m
    funext s
    show Run.bind m _ s = m s
    unfold Run.bind
    cases m s <;> rfl)
  (by intro α β a f; rfl)
  (by
    intro α β γ m f g
    funext s
    show Run.bind (Run.bind m f) g s = Run.bind m _ s
    unfold Run.bind
    cases m s <;> rfl)

/-- The run that lacks fuel. -/
def exhausted : Run α := fun _ => .outOfFuel

/-- The run that halts at once. -/
def halt (h : Halt) : Run α := fun s => .halted h s

/-- The run with a result that is already known, or halts. -/
def lift : Except Halt α → Run α
  | .ok a => Run.pure a
  | .error h => halt h

/-- What a function reads off the state. -/
def read (f : State → α) : Run α := fun s => .done (f s) s

/-- A change of the state. -/
def modify (f : State → State) : Run Unit := fun s => .done () (f s)

/-- A look at the store, which may halt the run. -/
def inspect (f : Store → Except Halt α) : Run α := fun s =>
  match f s.store with
  | .ok a => .done a s
  | .error h => .halted h s

/-- A change of the store with a result. It is not refused, and what it has changed stays changed
    whatever the run comes to. -/
def change (f : Store → α × Store) : Run α := fun s =>
  .done (f s.store).1 { s with store := (f s.store).2 }

/-- A change of the store. -/
def update (f : Store → Store) : Run Unit := change fun s => ((), f s)

/-- A name bound anew in the innermost frame. -/
def bindName (name : Name) (v : Value) : Run Unit :=
  modify fun s => { s with frame := s.frame.bind name v }

/-- The innermost frame returns a value. -/
def signalReturn (v : Value) : Run Unit :=
  modify fun s => { s with frame := { s.frame with returned := some v } }

@[simp] theorem halt_apply (h : Halt) (s : State) : (halt h : Run α) s = .halted h s := rfl

@[simp] theorem exhausted_apply (s : State) : (exhausted : Run α) s = .outOfFuel := rfl

@[simp] theorem read_apply (f : State → α) (s : State) : read f s = .done (f s) s := rfl

@[simp] theorem modify_apply (f : State → State) (s : State) : modify f s = .done () (f s) := rfl

/-- Whether the innermost frame has returned. -/
def returning : Run Bool := read fun s => s.frame.returned.isSome

/-! ### Changes of lists

A list is checked before it is changed, and each check halts the run on its own. -/

/-- The items of a list changed, without a check. -/
def mapItems (id : Nat) (f : Array Value → Array Value) : Run Unit :=
  update fun s => { s with heap := s.heap.mapItems id f }

/-- The item of a list at an index replaced. -/
def setItem (op : String) (id : Nat) (index : Int) (v : Value) : Run Unit := do
  inspect (·.heap.checkMutable op id)
  let i ← inspect (·.heap.position op id index)
  mapItems id (·.setIfInBounds i v)

/-- An item added at the end of a list. -/
def pushItem (op : String) (id : Nat) (v : Value) : Run Unit := do
  inspect (·.heap.checkMutable op id)
  mapItems id (·.push v)

/-- The last item of a list, taken off it. -/
def popItem (op : String) (id : Nat) : Run Value := do
  inspect (·.heap.checkMutable op id)
  let v ← inspect (·.heap.last op id)
  mapItems id (·.pop)
  pure v

/-! ### Runs around runs -/

/-- A trace line, if tracing is on; a line that cannot be written halts the run. -/
def trace (debug : Bool) (line : State → Except Halt String) : Run Unit :=
  if debug then fun s =>
    match line s with
    | .ok text => .done () { s with store := s.store.trace text }
    | .error h => .halted h s
  else Run.pure ()

/-- The run with its fault placed at an instruction. -/
def located (span : Option Span) (m : Run α) : Run α := fun s =>
  match m s with
  | .halted h s => .halted (h.locate span) s
  | o => o

/-- The run with the iteration over a list open for as long as it goes on. -/
def iterating (id : Nat) (m : Run α) : Run α := fun s =>
  (m { s with store := { s.store with heap := s.store.heap.beginIteration id } }).mapState fun s =>
    { s with store := { s.store with heap := s.store.heap.endIteration id } }

/-- The run in a frame of its own, one call deeper; its result is what that frame returned. -/
def inFrame (frame : Frame) (m : Run Unit) : Run (Option Value) := fun s =>
  match m { s with frame, depth := s.depth + 1 } with
  | .done () t => .done t.frame.returned { t with frame := s.frame, depth := t.depth - 1 }
  | .halted h t => .halted h { t with frame := s.frame, depth := t.depth - 1 }
  | .outOfFuel => .outOfFuel

end Run

end TagScript
