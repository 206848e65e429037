import TagScript.Session

set_option autoImplicit false

/-! # Evaluation over linked environments

Evaluation knows the frames outside the innermost one as a list that no instruction can change. Here
is the same evaluation over a table in which environments refer to their parents by number, and in
which a run may read and change every environment. A call puts a new environment on the table, whose
parent is the environment of the caller or the root of that, and takes it off again at its end. A
name is looked up in the environments as they are at that moment.

A *watch* is run whenever the evaluation of an instruction starts and whenever a function is about
to be looked up by its name. It serves to speak of every moment of a run. -/

namespace TagScript

namespace Session

/-- The parent of a function's environment that sees the root of an environment alone. -/
def rootParent (s : Session) (number : Nat) : Parent :=
  match s.root? number with
  | some root => .environment root
  | none => .sealed ((s.frame number).root (s.outer number))

/-- The session in a call: with one more environment, one call deeper. -/
def enter (s : Session) (parent : Parent) (frame : Frame) : Session :=
  { s with environments := s.environments.push ⟨parent, frame⟩, depth := s.depth + 1 }

/-- The session after a call. -/
def leave (s : Session) : Session :=
  { s with environments := s.environments.pop, depth := s.depth - 1 }

end Session

/-- A run in one of the environments of a session, which is known by its number. -/
def Linked (α : Type) : Type := (number : Nat) → Session → Outcome Session α

namespace Linked

variable {α β : Type}

/-- The run that does nothing. -/
protected def pure (a : α) : Linked α := fun _ s => .done a s

/-- One run after another. -/
protected def bind (m : Linked α) (f : α → Linked β) : Linked β := fun number s =>
  match m number s with
  | .done a s => f a number s
  | .halted h s => .halted h s
  | .outOfFuel => .outOfFuel

instance : Monad Linked where
  pure := Linked.pure
  bind := Linked.bind

/-- A run on the frame of the environment, the store and the depth. -/
def onFrame (m : Run α) : Linked α := fun number s => s.perform number m

instance : MonadLift Run Linked := ⟨onFrame⟩

/-- The frames outside the environment's own, as they are now. -/
def outer : Linked (List Frame) := fun number s => .done (s.outer number) s

/-- The run with its fault placed at an instruction. -/
def located (span : Option Span) (m : Linked α) : Linked α := fun number s =>
  match m number s with
  | .halted h s => .halted (h.locate span) s
  | o => o

/-- The run with the iteration over a list open for as long as it goes on. -/
def iterating (id : Nat) (m : Linked α) : Linked α := fun number s =>
  (m number { s with store := { s.store with heap := s.store.heap.beginIteration id } }).mapState
    fun s => { s with store := { s.store with heap := s.store.heap.endIteration id } }

/-- The run in a new environment, one call deeper; its result is what the frame of that environment
    returned. -/
def inEnvironment (parent : Parent) (frame : Frame) (m : Linked Unit) : Linked (Option Value) :=
  fun _ s =>
    match m s.environments.size (s.enter parent frame) with
    | .done () t => .done (t.frame s.environments.size).returned t.leave
    | .halted h t => .halted h t.leave
    | .outOfFuel => .outOfFuel

/-! ## Parts of instructions -/

/-- A value where one is needed by the operation `op`. -/
def required (eval : Instr → Linked (Option Value)) (op : String) (i : Instr) : Linked Value := do
  match ← eval i with
  | some v => pure v
  | none => Run.halt (.refused op .noValue)

/-- The values of operands, from left to right. -/
def values (eval : Instr → Linked (Option Value)) (op : String) : List Instr → Linked (List Value)
  | [] => pure []
  | i :: rest => do
    let v ← required eval op i
    let vs ← values eval op rest
    pure (v :: vs)

/-- Statements in order; their values are dropped. -/
def block (eval : Instr → Linked (Option Value)) : List Instr → Linked Unit
  | [] => pure ()
  | i :: rest => do
    let _ ← eval i
    block eval rest

/-! ## Calls -/

/-- The parent of the environment of a function that is called from the current one. -/
def calleeParent (scope : Scope) : Linked Parent := fun number s =>
  match scope with
  | .lexical => .done (.environment number) s
  | .global => .done (s.rootParent number) s
  | .unknown word => .halted (.crash (.unknownScope word)) s

/-- A call of a program function: the checks, and then its body in an environment of its own. -/
def callClosure (opts : Options) (eval : Instr → Linked (Option Value)) (scope : Scope)
    (f : Closure) (args : List Value) : Linked (Option Value) := do
  if args.length ≠ f.params.length then
    Run.halt (.arity f.name f.params.length args.length)
  else
    let depth ← Run.read (·.depth)
    if opts.maxCallDepth ≤ depth then
      Run.halt (.fault (.callDepth opts.maxCallDepth) none)
    else
      let parent ← calleeParent scope
      Run.trace opts.debug (Eval.callLine f args scope)
      inEnvironment parent (Frame.ofArguments f.params args) (block eval f.body)

/-- A call of a value. -/
def callValue (opts : Options) (eval : Instr → Linked (Option Value)) (scope : Scope)
    (callee : Value) (args : List Value) : Linked (Option Value) :=
  match callee with
  | .native f => do
    Run.trace opts.debug fun _ =>
      .ok ("calling native " ++ f.name ++ " with " ++ integerText args.length ++ " arguments")
    f.call args
  | .closure f => callClosure opts eval scope f args
  | v => Run.halt (.refused "call" (.notCallable v.typeName))

/-! ## Loops -/

/-- `rounds` rounds with the name bound to `first`, `first + step`, and so on. -/
def countRounds (opts : Options) (name : Name) (step : Int) (body : Linked Unit) :
    (rounds : Nat) → (first : Int) → Linked Unit
  | 0, _ => pure ()
  | rounds + 1, first => do
    if ← Eval.leaveLoop opts then pure ()
    else
      let v ← Run.lift (Value.integer "for" first)
      Run.bindName name v
      body
      countRounds opts name step body rounds (first + step)

/-- One round for each item, the name bound to it. -/
def itemRounds (opts : Options) (name : Name) (body : Linked Unit) : List Value → Linked Unit
  | [] => pure ()
  | v :: rest => do
    if ← Eval.leaveLoop opts then pure ()
    else
      let copy ← Run.lift v.copy
      Run.bindName name copy
      body
      itemRounds opts name body rest

/-- Rounds for as long as the test holds and the frame has not returned. -/
def whileRounds (test : Linked Bool) (body : Linked Unit) : (fuel : Nat) → Linked Unit
  | 0 => Run.exhausted
  | fuel + 1 => do
    if ← Run.returning then pure ()
    else if ← test then
      body
      whileRounds test body fuel
    else pure ()

/-! ## Kinds -/

/-- The value of an operator on the values of all operands. -/
def operator (eval : Instr → Linked (Option Value)) (op : String) (i : Instr)
    (f : Heap → List Value → Except Halt Value) : Linked (Option Value) := do
  let vs ← values eval op i.operands
  let heap ← Run.read (·.store.heap)
  let v ← Run.lift (f heap vs)
  pure (some v)

/-- The value of an operator on the value of the first operand. -/
def unary (eval : Instr → Linked (Option Value)) (op : String) (i : Instr)
    (f : Heap → Value → Except Halt Value) : Linked (Option Value) := do
  let e ← Eval.firstOperand i
  let v ← required eval op e
  let heap ← Run.read (·.store.heap)
  let r ← Run.lift (f heap v)
  pure (some r)

/-- The value of a comparison. -/
def comparison (eval : Instr → Linked (Option Value)) (op : String) (i : Instr)
    (f : Value → Value → Except Halt Value) : Linked (Option Value) :=
  operator eval op i fun _ vs =>
    match vs with
    | [left, right] => f left right
    | vs => Eval.wrongCount 2 vs

/-- The value of a variable. -/
def variableValue (name : Name) : Linked (Option Value) := do
  let outer ← outer
  Eval.variableValue outer name

/-- A call of a value by an expression: the arguments come before the function. -/
def call (opts : Options) (eval : Instr → Linked (Option Value)) (i : Instr) :
    Linked (Option Value) :=
  match i.operands with
  | [] => Run.halt (.crash .noOperand)
  | callee :: args => do
    let vs ← values eval "call" args
    let f ← required eval "call" callee
    callValue opts eval .lexical f vs

/-- The function that a name has in the root as it is now. -/
def rootFunction (name : Name) : Linked (Option Value) := fun number s =>
  .done ((((s.frame number).root (s.outer number)).bindings.get? name).bind Value.present?) s

/-- A call of a function of the root environment by its name. -/
def callNamed (opts : Options) (watch : Linked Unit) (eval : Instr → Linked (Option Value))
    (i : Instr) : Linked (Option Value) := do
  let vs ← values eval "call" i.operands
  watch
  match ← rootFunction i.value with
  | some f => callValue opts eval .global f vs
  | none => Run.halt (.fault (.unknownFunction i.value) none)

/-- One of two blocks. -/
def condition (eval : Instr → Linked (Option Value)) (i : Instr) : Linked (Option Value) := do
  let e ← Eval.firstOperand i
  let v ← required eval "if" e
  let holds ← Eval.truth v
  block eval (if holds then i.body else i.orelse)
  pure none

/-- The loop over a range. Bounds that are not all integers make no round. -/
def countLoop (opts : Options) (eval : Instr → Linked (Option Value)) (i : Instr) :
    Linked (Option Value) := do
  match ← values eval "for" i.operands with
  | [.int first, .int last, .int step] =>
    if step ≤ 0 then Run.halt (.refused "for" (.badStep step))
    else
      countRounds opts i.value step (block eval i.body) (Eval.roundCount first last step) first
      pure none
  | [_, _, _] => pure none
  | vs => Run.lift (Eval.wrongCount 3 vs)

/-- The loop over the items that a list has when the loop starts. -/
def eachLoop (opts : Options) (eval : Instr → Linked (Option Value)) (i : Instr) :
    Linked (Option Value) := do
  let e ← Eval.firstOperand i
  let v ← required eval "each" e
  let id ← Eval.listId "each" v
  let items ← Run.read fun s => (s.store.heap.items id).toList
  iterating id (itemRounds opts i.value (block eval i.body) items)
  pure none

/-- The loop on a condition. -/
def whileLoop (eval : Instr → Linked (Option Value)) (fuel : Nat) (i : Instr) :
    Linked (Option Value) := do
  let e ← Eval.firstOperand i
  let test : Linked Bool := do
    let v ← required eval "while" e
    Eval.truth v
  whileRounds test (block eval i.body) fuel
  pure none

/-- An item of a list replaced. -/
def arraySet (eval : Instr → Linked (Option Value)) (i : Instr) : Linked (Option Value) := do
  match ← values eval "assign-array" i.operands with
  | [array, index, v] => do
    let id ← Eval.listId "assign-array" array
    match index with
    | .int n =>
      Run.setItem "assign-array" id n v
      pure none
    | other => Run.halt (.wrongType "assign-array" "index" "Integer" other)
  | vs => Run.lift (Eval.wrongCount 3 vs)

/-- An item added at the end of a list. -/
def arrayPush (eval : Instr → Linked (Option Value)) (i : Instr) : Linked (Option Value) := do
  match ← values eval "insert-array" i.operands with
  | [array, v] => do
    let id ← Eval.listId "insert-array" array
    Run.pushItem "insert-array" id v
    pure none
  | vs => Run.lift (Eval.wrongCount 2 vs)

/-- The evaluation of an instruction by its kind, its parts being evaluated by `eval`. -/
def perform (opts : Options) (watch : Linked Unit) (eval : Instr → Linked (Option Value))
    (fuel : Nat) (i : Instr) : Linked (Option Value) :=
  match i.kind with
  | .value => variableValue i.value
  | .assign => do
    let e ← Eval.firstOperand i
    let v ← required eval "assign" e
    Run.bindName i.value v
    pure none
  | .integer => do
    let s ← Eval.literal i
    let v ← Run.lift (Value.parseInteger "integer" s)
    pure (some v)
  | .real => do
    let s ← Eval.literal i
    let v ← Run.lift (Value.parseReal "float" s)
    pure (some v)
  | .text => pure (some (match i.value with
    | some s => .text s
    | none => .missingText))
  | .integerCast => unary eval "integer" i fun _ v => v.castInteger "integer"
  | .realCast => unary eval "float" i fun _ v => v.castReal "float"
  | .textCast => unary eval "string" i fun _ v => v.castText "string"
  | .array => do
    let vs ← values eval "array" i.operands
    let v ← Run.change (·.newList vs)
    pure (some v)
  | .add => operator eval "add" i fun _ => Value.add
  | .subtract => operator eval "subtract" i fun _ => Value.subtract
  | .multiply => operator eval "multiply" i fun _ => Value.multiply
  | .divide => operator eval "divide" i fun _ => Value.divide
  | .and => operator eval "and" i Value.and
  | .or => operator eval "or" i Value.or
  | .not => unary eval "not" i Value.not
  | .equal => comparison eval "equal" i Value.equal
  | .greater => comparison eval "greater" i Value.greater
  | .lower => comparison eval "lower" i Value.lower
  | .call => call opts eval i
  | .callNamed => callNamed opts watch eval i
  | .giveBack => do
    let e ← Eval.firstOperand i
    let v ← required eval "return" e
    Run.signalReturn v
    pure none
  | .ifThen => condition eval i
  | .ifElse => condition eval i
  | .countLoop => countLoop opts eval i
  | .eachLoop => eachLoop opts eval i
  | .whileLoop => whileLoop eval fuel i
  | .arraySet => arraySet eval i
  | .arrayPush => arrayPush eval i
  | .unknown word => Run.halt (.fault (.unknownInstruction word) none)

/-- One level of evaluation: nothing if the frame has returned, else the instruction, a fault of
    its own being placed at it. -/
def step (opts : Options) (watch : Linked Unit) (eval : Instr → Linked (Option Value)) (fuel : Nat)
    (i : Instr) : Linked (Option Value) := do
  watch
  if ← Run.returning then pure none
  else
    Run.trace opts.debug fun _ => .ok (Eval.instrLine i)
    located i.span (perform opts watch eval fuel i)

/-- The evaluation of an instruction in an environment. -/
def eval (opts : Options) (watch : Linked Unit) : (fuel : Nat) → Instr → Linked (Option Value)
  | 0 => fun _ => Run.exhausted
  | fuel + 1 => step opts watch (eval opts watch fuel) fuel

/-- The main block of a program, in the environment inside its root. -/
def run (opts : Options) (watch : Linked Unit) (fuel : Nat) (p : Program) : Linked Unit := do
  Run.trace opts.debug fun _ => .ok p.runLine
  block (eval opts watch fuel) p.main

end Linked

end TagScript
