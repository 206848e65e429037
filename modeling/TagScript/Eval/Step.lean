import TagScript.Eval.Run
import TagScript.Native
import TagScript.Value.Cast

set_option autoImplicit false

/-! # Evaluation

An instruction is evaluated in an environment: the innermost frame, which is part of the state, and
the frames outside it. It gives a value or none. Once the innermost frame has returned, evaluation
in it does nothing.

Evaluation is recursive through loops and calls, so it is bounded by fuel: one unit for each level
of nesting, and a while loop makes at most as many rounds as it has fuel. A run that ends is the
same with more fuel.

The stack of the host is left out. A host that runs out of it while the body of a function is under
evaluation reports an exceeded call depth, whatever the depth is; here there is always room, and the
number of calls in progress alone decides. -/

namespace TagScript

/-- How programs are run. -/
structure Options where
  /-- Write trace lines on the error stream. -/
  debug : Bool := false
  /-- Leave a loop over a range or a list as soon as the frame has returned. -/
  shortCircuitLoops : Bool := false
  /-- The most calls of program functions in progress at a time. -/
  maxCallDepth : Int := 1000
  deriving DecidableEq, Repr, Inhabited

/-- Which frames are outside the frame of a called function. -/
inductive Scope where
  /-- Those of the caller, its own frame included. -/
  | lexical
  /-- The root alone. -/
  | global
  /-- A word that names no policy. -/
  | unknown (word : String)
  deriving DecidableEq, Repr

/-- The word of a policy. -/
def Scope.word : Scope → String
  | .lexical => "lexical"
  | .global => "global"
  | .unknown w => w

/-- The policy of a word. -/
def Scope.ofWord (w : String) : Scope :=
  if w = "lexical" then .lexical else if w = "global" then .global else .unknown w

/-- An evaluator: the frames outside the innermost one, and the instruction. -/
abbrev Evaluator := List Frame → Instr → Run (Option Value)

namespace Eval

/-! ## Parts of instructions -/

/-- A value where one is needed by the operation `op`. -/
def required (eval : Instr → Run (Option Value)) (op : String) (i : Instr) : Run Value := do
  match ← eval i with
  | some v => pure v
  | none => Run.halt (.refused op .noValue)

/-- The values of operands, from left to right. -/
def values (eval : Instr → Run (Option Value)) (op : String) : List Instr → Run (List Value)
  | [] => pure []
  | i :: rest => do
    let v ← required eval op i
    let vs ← values eval op rest
    pure (v :: vs)

/-- Statements in order; their values are dropped. -/
def block (eval : Instr → Run (Option Value)) : List Instr → Run Unit
  | [] => pure ()
  | i :: rest => do
    let _ ← eval i
    block eval rest

/-- The first operand, which the instruction has to have. -/
def firstOperand (i : Instr) : Run Instr :=
  match i.operands with
  | e :: _ => pure e
  | [] => Run.halt (.crash .noOperand)

/-- The text of a numeral, which the instruction has to have. -/
def literal (i : Instr) : Run String :=
  match i.value with
  | some s => pure s
  | none => Run.halt (.crash (.noText .numeral))

/-- The crash of an instruction with the wrong number of operands. -/
def wrongCount {α : Type} (expected : Nat) (vs : List Value) : Except Halt α :=
  .error (.crash (.operandCount expected vs.length))

/-- Whether a value is true in the current heap. -/
def truth (v : Value) : Run Bool := do
  let heap ← Run.read (·.store.heap)
  Run.lift (v.isTruthy heap)

/-! ## Calls -/

/-- The trace line of a call of a program function. -/
def callLine (f : Closure) (args : List Value) (scope : Scope) (s : State) :
    Except Halt String :=
  (Value.formatAll (fun v => v.format s.store.heap true) args).map fun shown =>
    "calling " ++ f.name ++ "(" ++ ", ".intercalate shown ++ ") [" ++ scope.word ++ "]"

/-- The frames outside the frame of a function that is called where `frame` is the innermost one. -/
def calleeOuter (scope : Scope) (frame : Frame) (outer : List Frame) : Except Halt (List Frame) :=
  match scope with
  | .lexical => .ok (frame :: outer)
  | .global => .ok [frame.root outer]
  | .unknown word => .error (.crash (.unknownScope word))

/-- A call of a program function: the checks, and then its body in a frame of its own. Of the two
    ways to exceed the call depth this is the one by counting; the other, for want of host stack, is
    left out. -/
def callClosure (opts : Options) (eval : Evaluator) (outer : List Frame) (scope : Scope)
    (f : Closure) (args : List Value) : Run (Option Value) := do
  if args.length ≠ f.params.length then
    Run.halt (.arity f.name f.params.length args.length)
  else
    let depth ← Run.read (·.depth)
    if opts.maxCallDepth ≤ depth then
      Run.halt (.fault (.callDepth opts.maxCallDepth) none)
    else
      let frame ← Run.read (·.frame)
      let inner ← Run.lift (calleeOuter scope frame outer)
      Run.trace opts.debug (callLine f args scope)
      Run.inFrame (Frame.ofArguments f.params args) (block (eval inner) f.body)

/-- A call of a value. -/
def callValue (opts : Options) (eval : Evaluator) (outer : List Frame) (scope : Scope)
    (callee : Value) (args : List Value) : Run (Option Value) :=
  match callee with
  | .native f => do
    Run.trace opts.debug fun _ =>
      .ok ("calling native " ++ f.name ++ " with " ++ integerText args.length ++ " arguments")
    f.call args
  | .closure f => callClosure opts eval outer scope f args
  | v => Run.halt (.refused "call" (.notCallable v.typeName))

/-! ## Loops -/

/-- Whether a loop over a range or a list is left before its next round. -/
def leaveLoop (opts : Options) : Run Bool := do
  let returning ← Run.returning
  pure (opts.shortCircuitLoops && returning)

/-- `rounds` rounds with the name bound to `first`, `first + step`, and so on. -/
def countRounds (opts : Options) (name : Name) (step : Int) (body : Run Unit) :
    (rounds : Nat) → (first : Int) → Run Unit
  | 0, _ => pure ()
  | rounds + 1, first => do
    if ← leaveLoop opts then pure ()
    else
      let v ← Run.lift (Value.integer "for" first)
      Run.bindName name v
      body
      countRounds opts name step body rounds (first + step)

/-- One round for each item, the name bound to it. -/
def itemRounds (opts : Options) (name : Name) (body : Run Unit) : List Value → Run Unit
  | [] => pure ()
  | v :: rest => do
    if ← leaveLoop opts then pure ()
    else
      let copy ← Run.lift v.copy
      Run.bindName name copy
      body
      itemRounds opts name body rest

/-- Rounds for as long as the test holds and the frame has not returned. -/
def whileRounds (test : Run Bool) (body : Run Unit) : (fuel : Nat) → Run Unit
  | 0 => Run.exhausted
  | fuel + 1 => do
    if ← Run.returning then pure ()
    else if ← test then
      body
      whileRounds test body fuel
    else pure ()

/-- The number of integers from `first` up to `last`, the last one excluded, in steps of `step`. -/
def roundCount (first last step : Int) : Nat :=
  ((last - first + step - 1) / step).toNat

/-! ## Kinds -/

/-- The value of an operator on the values of all operands. -/
def operator (eval : Instr → Run (Option Value)) (op : String) (i : Instr)
    (f : Heap → List Value → Except Halt Value) : Run (Option Value) := do
  let vs ← values eval op i.operands
  let heap ← Run.read (·.store.heap)
  let v ← Run.lift (f heap vs)
  pure (some v)

/-- The value of an operator on the value of the first operand. -/
def unary (eval : Instr → Run (Option Value)) (op : String) (i : Instr)
    (f : Heap → Value → Except Halt Value) : Run (Option Value) := do
  let e ← firstOperand i
  let v ← required eval op e
  let heap ← Run.read (·.store.heap)
  let r ← Run.lift (f heap v)
  pure (some r)

/-- The value of a comparison. -/
def comparison (eval : Instr → Run (Option Value)) (op : String) (i : Instr)
    (f : Value → Value → Except Halt Value) : Run (Option Value) :=
  operator eval op i fun _ vs =>
    match vs with
    | [left, right] => f left right
    | vs => wrongCount 2 vs

/-- A value that has to be a list. -/
def listId (op : String) (v : Value) : Run Nat :=
  match v with
  | .list id => pure id
  | v => Run.halt (.wrongType op "array" "List" v)

/-- The value of a variable. -/
def variableValue (outer : List Frame) (name : Name) : Run (Option Value) := do
  let frame ← Run.read (·.frame)
  match (Frame.lookup? name (frame :: outer)).bind Value.present? with
  | some v => pure (some v)
  | none => Run.halt (.fault (.unknownVariable name) none)

/-- A call of a value by an expression: the arguments come before the function. -/
def call (opts : Options) (eval : Evaluator) (outer : List Frame) (i : Instr) :
    Run (Option Value) :=
  match i.operands with
  | [] => Run.halt (.crash .noOperand)
  | callee :: args => do
    let vs ← values (eval outer) "call" args
    let f ← required (eval outer) "call" callee
    callValue opts eval outer .lexical f vs

/-- A call of a function of the root frame by its name. -/
def callNamed (opts : Options) (eval : Evaluator) (outer : List Frame) (i : Instr) :
    Run (Option Value) := do
  let vs ← values (eval outer) "call" i.operands
  let frame ← Run.read (·.frame)
  match ((frame.root outer).bindings.get? i.value).bind Value.present? with
  | some f => callValue opts eval outer .global f vs
  | none => Run.halt (.fault (.unknownFunction i.value) none)

/-- One of two blocks. -/
def condition (eval : Instr → Run (Option Value)) (i : Instr) : Run (Option Value) := do
  let e ← firstOperand i
  let v ← required eval "if" e
  let holds ← truth v
  block eval (if holds then i.body else i.orelse)
  pure none

/-- The loop over a range. Bounds that are not all integers make no round. -/
def countLoop (opts : Options) (eval : Instr → Run (Option Value)) (i : Instr) :
    Run (Option Value) := do
  match ← values eval "for" i.operands with
  | [.int first, .int last, .int step] =>
    if step ≤ 0 then Run.halt (.refused "for" (.badStep step))
    else
      countRounds opts i.value step (block eval i.body) (roundCount first last step) first
      pure none
  | [_, _, _] => pure none
  | vs => Run.lift (wrongCount 3 vs)

/-- The loop over the items that a list has when the loop starts. -/
def eachLoop (opts : Options) (eval : Instr → Run (Option Value)) (i : Instr) :
    Run (Option Value) := do
  let e ← firstOperand i
  let v ← required eval "each" e
  let id ← listId "each" v
  let items ← Run.read fun s => (s.store.heap.items id).toList
  Run.iterating id (itemRounds opts i.value (block eval i.body) items)
  pure none

/-- The loop on a condition. -/
def whileLoop (eval : Instr → Run (Option Value)) (fuel : Nat) (i : Instr) :
    Run (Option Value) := do
  let e ← firstOperand i
  let test : Run Bool := do
    let v ← required eval "while" e
    truth v
  whileRounds test (block eval i.body) fuel
  pure none

/-- An item of a list replaced. -/
def arraySet (eval : Instr → Run (Option Value)) (i : Instr) : Run (Option Value) := do
  match ← values eval "assign-array" i.operands with
  | [array, index, v] => do
    let id ← listId "assign-array" array
    match index with
    | .int n =>
      Run.setItem "assign-array" id n v
      pure none
    | other => Run.halt (.wrongType "assign-array" "index" "Integer" other)
  | vs => Run.lift (wrongCount 3 vs)

/-- An item added at the end of a list. -/
def arrayPush (eval : Instr → Run (Option Value)) (i : Instr) : Run (Option Value) := do
  match ← values eval "insert-array" i.operands with
  | [array, v] => do
    let id ← listId "insert-array" array
    Run.pushItem "insert-array" id v
    pure none
  | vs => Run.lift (wrongCount 2 vs)

/-- The evaluation of an instruction by its kind, its parts being evaluated by `eval`. -/
def perform (opts : Options) (eval : Evaluator) (fuel : Nat) (outer : List Frame) (i : Instr) :
    Run (Option Value) :=
  let inner := eval outer
  match i.kind with
  | .value => variableValue outer i.value
  | .assign => do
    let e ← firstOperand i
    let v ← required inner "assign" e
    Run.bindName i.value v
    pure none
  | .integer => do
    let s ← literal i
    let v ← Run.lift (Value.parseInteger "integer" s)
    pure (some v)
  | .real => do
    let s ← literal i
    let v ← Run.lift (Value.parseReal "float" s)
    pure (some v)
  | .text => pure (some (match i.value with
    | some s => .text s
    | none => .missingText))
  | .integerCast => unary inner "integer" i fun _ v => v.castInteger "integer"
  | .realCast => unary inner "float" i fun _ v => v.castReal "float"
  | .textCast => unary inner "string" i fun _ v => v.castText "string"
  | .array => do
    let vs ← values inner "array" i.operands
    let v ← Run.change (·.newList vs)
    pure (some v)
  | .add => operator inner "add" i fun _ => Value.add
  | .subtract => operator inner "subtract" i fun _ => Value.subtract
  | .multiply => operator inner "multiply" i fun _ => Value.multiply
  | .divide => operator inner "divide" i fun _ => Value.divide
  | .and => operator inner "and" i Value.and
  | .or => operator inner "or" i Value.or
  | .not => unary inner "not" i Value.not
  | .equal => comparison inner "equal" i Value.equal
  | .greater => comparison inner "greater" i Value.greater
  | .lower => comparison inner "lower" i Value.lower
  | .call => call opts eval outer i
  | .callNamed => callNamed opts eval outer i
  | .giveBack => do
    let e ← firstOperand i
    let v ← required inner "return" e
    Run.signalReturn v
    pure none
  | .ifThen => condition inner i
  | .ifElse => condition inner i
  | .countLoop => countLoop opts inner i
  | .eachLoop => eachLoop opts inner i
  | .whileLoop => whileLoop inner fuel i
  | .arraySet => arraySet inner i
  | .arrayPush => arrayPush inner i
  | .unknown word => Run.halt (.fault (.unknownInstruction word) none)

/-- The trace line of an instruction. -/
def instrLine (i : Instr) : String :=
  "evaluating " ++ i.kind.word ++ " at "
    ++ match i.span with
      | some span => span.format
      | none => "None"

/-- One level of evaluation: nothing if the frame has returned, else the instruction, a fault of
    its own being placed at it. -/
def step (opts : Options) (eval : Evaluator) (fuel : Nat) (outer : List Frame) (i : Instr) :
    Run (Option Value) := do
  if ← Run.returning then pure none
  else
    Run.trace opts.debug fun _ => .ok (instrLine i)
    Run.located i.span (perform opts eval fuel outer i)

end Eval

/-- The evaluation of an instruction in the frames outside the innermost one. -/
def eval (opts : Options) : (fuel : Nat) → Evaluator
  | 0 => fun _ _ => Run.exhausted
  | fuel + 1 => Eval.step opts (eval opts fuel) fuel

end TagScript
