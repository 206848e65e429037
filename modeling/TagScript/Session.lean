import TagScript.Eval.Step

set_option autoImplicit false

/-! # Running programs, and sessions

A program is run by evaluating its main block in a frame inside its root frame. A session keeps
environments and a store between operations, each of which may end in a value or halt; what an
operation has done by then stays done. -/

namespace TagScript

/-! ## Runs of a program -/

/-- More levels and rounds than a run can get through in practice. -/
def ampleFuel : Nat := Nat.pow 2 62

/-- The trace line at the start of a run. -/
def Program.runLine (p : Program) : String :=
  "running main with " ++ integerText p.functions.length ++ " user functions"

/-- The main block of a program in a fresh root frame. The innermost frame at the end is the main
    frame. -/
def Program.run (opts : Options) (fuel : Nat) (p : Program) (arguments : List String) :
    Run Unit := do
  Run.trace opts.debug fun _ => .ok p.runLine
  Eval.block (eval opts fuel [Frame.ofProgram p arguments]) p.main

/-! ## Sessions -/

/-- What is outside an environment's own frame. -/
inductive Parent where
  /-- Nothing: the frame is a root. -/
  | none
  /-- Another environment of the session. -/
  | environment (number : Nat)
  /-- A root frame that no operation of the session reaches. -/
  | sealed (root : Frame)
  deriving Repr, Inhabited

/-- An environment of a session. -/
structure Environment where
  parent : Parent
  frame : Frame
  deriving Repr, Inhabited

/-- The environments, numbered from zero, the store and the number of calls in progress. -/
structure Session where
  environments : Array Environment := #[]
  store : Store := {}
  depth : Nat := 0
  deriving Repr, Inhabited

namespace Session

/-- A session with the root environment of a program and an environment inside it. -/
def start (p : Program) (arguments : List String) (store : Store) : Session :=
  { environments :=
      #[⟨.none, Frame.ofProgram p arguments⟩, ⟨.environment 0, {}⟩]
    store }

/-- The frame of an environment. -/
def frame (s : Session) (number : Nat) : Frame :=
  match s.environments[number]? with
  | some e => e.frame
  | none => {}

/-- The frames of a parent and of those outside it, at most `room` of them. -/
def framesOf (s : Session) : (room : Nat) → Parent → List Frame
  | _, .none => []
  | _, .sealed root => [root]
  | 0, .environment _ => []
  | room + 1, .environment number =>
    match s.environments[number]? with
    | some e => e.frame :: s.framesOf room e.parent
    | none => []

/-- The frames outside an environment's own frame. -/
def outer (s : Session) (number : Nat) : List Frame :=
  match s.environments[number]? with
  | some e => s.framesOf s.environments.size e.parent
  | none => []

/-- The session with the frame of one environment changed. -/
def setFrame (s : Session) (number : Nat) (f : Frame) : Session :=
  { s with environments := s.environments.modify number fun e => { e with frame := f } }

/-- A run in an environment. -/
def perform {α : Type} (s : Session) (number : Nat) (m : Run α) : Outcome Session α :=
  (m ⟨s.frame number, s.store, s.depth⟩).mapState fun t =>
    { s.setFrame number t.frame with store := t.store, depth := t.depth }

/-- The evaluation of an instruction in an environment. -/
def evaluate (opts : Options) (fuel : Nat) (s : Session) (number : Nat) (i : Instr) :
    Outcome Session (Option Value) :=
  s.perform number (eval opts fuel (s.outer number) i)

/-- The call of a value from an environment. -/
def call (opts : Options) (fuel : Nat) (s : Session) (number : Nat) (scope : Scope)
    (callee : Value) (args : List Value) : Outcome Session (Option Value) :=
  s.perform number (Eval.callValue opts (eval opts fuel) (s.outer number) scope callee args)

/-- A run of a program; its main environment becomes an environment of the session, and its number
    is the result. -/
def run (opts : Options) (fuel : Nat) (s : Session) (p : Program) (arguments : List String) :
    Outcome Session Nat :=
  match p.run opts fuel arguments ⟨{}, s.store, s.depth⟩ with
  | .done () t =>
    .done s.environments.size
      { environments := s.environments.push
          ⟨.sealed (Frame.ofProgram p arguments), t.frame⟩
        store := t.store
        depth := t.depth }
  | .halted h t => .halted h { s with store := t.store, depth := t.depth }
  | .outOfFuel => .outOfFuel

/-- The session with a new environment, and its number. -/
def newEnvironment (s : Session) (parent : Parent) : Nat × Session :=
  (s.environments.size, { s with environments := s.environments.push ⟨parent, {}⟩ })

/-- The session with a name bound anew in an environment. -/
def bind (s : Session) (number : Nat) (name : String) (v : Value) : Session :=
  s.setFrame number ((s.frame number).bind (some name) v)

/-- The value of a name seen from an environment; absent if there is none. -/
def lookup (s : Session) (number : Nat) (name : String) : Value :=
  (Frame.lookup? (some name) (s.frame number :: s.outer number)).getD .absent

/-- The number of the root of an environment, unless that is out of reach; at most `room` parents
    are followed. -/
def rootFrom (s : Session) : (room : Nat) → (number : Nat) → Option Nat
  | 0, number => some number
  | room + 1, number =>
    match s.environments[number]? with
    | some ⟨.environment parent, _⟩ => s.rootFrom room parent
    | some ⟨.sealed _, _⟩ => none
    | _ => some number

/-- The number of the root of an environment, unless that is out of reach. -/
def root? (s : Session) (number : Nat) : Option Nat :=
  s.rootFrom s.environments.size number

/-- The session with an environment's frame returning a value; with the absent value it does not
    return. -/
def signal (s : Session) (number : Nat) (v : Value) : Session :=
  s.setFrame number { s.frame number with returned := v.present? }

/-- The value that an environment's frame returns, and the session without it. -/
def take (s : Session) (number : Nat) : Option Value × Session :=
  ((s.frame number).returned, s.signal number .absent)

end Session

end TagScript
