import TagScript.Markup.Node
import TagScript.Program.Instr

set_option autoImplicit false

/-! # From markup to programs

Each tag of the language has a shape: the attributes it must have, the children it uses and the
order in which they are analysed. Children that a shape does not use are ignored. The analysis of a
tree visits the elements it uses, parents first, and stops at the first fault. -/

namespace TagScript

open Markup (Node)

/-! ## Faults -/

/-- What is wrong with the structure of a program. -/
inductive StructureFault where
  | missingChild (tag child : String)
  | missingAttribute (tag name : String)
  | badChildCount (tag : String) (count : Int)
  | unnamed (what : String)
  | unknownTag (tag : String)
  | secondMain
  | unexpectedAtTop (tag : String)
  | noMain
  deriving DecidableEq, Repr

/-- The wording of a fault. -/
def StructureFault.message : StructureFault → String
  | .missingChild tag child => "missing '" ++ child ++ "' child in '" ++ tag ++ "' node"
  | .missingAttribute tag name => "missing '" ++ name ++ "' attribute in '" ++ tag ++ "' node"
  | .badChildCount tag count => "bad child count (" ++ toString count ++ ") in '" ++ tag ++ "' tag"
  | .unnamed what => "unnamed '" ++ what ++ "'"
  | .unknownTag tag => "unknown tag '" ++ tag ++ "'"
  | .secondMain => "invalid program structure: more than one 'main' block"
  | .unexpectedAtTop tag => "invalid program structure: unexpected '" ++ tag ++ "' at top level"
  | .noMain => "No 'main' block"

/-- A fault and the element it is about. -/
structure SemanticsError where
  fault : StructureFault
  span : Option Span
  deriving DecidableEq, Repr

/-- The text of an error. -/
def SemanticsError.text (e : SemanticsError) : String :=
  match e.span with
  | some span => e.fault.message ++ " (at " ++ span.format ++ ")"
  | none => e.fault.message

/-! ## Analyses -/

/-- The elements visited, in order, and the outcome. -/
structure Analysis (α : Type) where
  visited : List Node
  outcome : Except SemanticsError α

namespace Analysis

variable {α β : Type}

/-- A finished analysis. -/
protected def pure (a : α) : Analysis α := ⟨[], .ok a⟩

/-- One analysis after another. -/
protected def bind (x : Analysis α) (f : α → Analysis β) : Analysis β :=
  match x.outcome with
  | .error e => ⟨x.visited, .error e⟩
  | .ok a =>
    let y := f a
    ⟨x.visited ++ y.visited, y.outcome⟩

instance : Monad Analysis where
  pure := Analysis.pure
  bind := Analysis.bind

/-- An analysis with its result changed. -/
protected def map (f : α → β) (x : Analysis α) : Analysis β := ⟨x.visited, x.outcome.map f⟩

/-- An analysis that visits one element. -/
def visit (n : Node) : Analysis Unit := ⟨[n], .ok ()⟩

/-- An analysis that stops at an element. -/
def refuse (n : Node) (fault : StructureFault) : Analysis α := ⟨[], .error ⟨fault, some n.span⟩⟩

/-- What is there, or a stop at the element. -/
def require (n : Node) (fault : StructureFault) : Option α → Analysis α
  | some a => Analysis.pure a
  | none => refuse n fault

/-- The outcome of one analysis after another is that of the second on the first. -/
@[simp] theorem outcome_bind (x : Analysis α) (f : α → Analysis β) :
    (x >>= f).outcome = x.outcome >>= fun a => (f a).outcome := by
  show (Analysis.bind x f).outcome = _
  unfold Analysis.bind
  cases h : x.outcome <;> rfl

@[simp] theorem outcome_pure (a : α) : (pure a : Analysis α).outcome = .ok a := rfl

@[simp] theorem outcome_map (f : α → β) (x : Analysis α) :
    (x.map f).outcome = x.outcome.map f := rfl

/-- One analysis for each item, in order. -/
def each (f : α → Analysis β) : List α → Analysis (List β)
  | [] => pure []
  | a :: rest => do
    let b ← f a
    (each f rest).map (b :: ·)

end Analysis

/-! ## Shapes -/

/-- The shape of an instruction element: which attributes and children it uses. -/
inductive Shape where
  /-- A variable, named by an attribute. -/
  | reference
  /-- A literal in an attribute or, without it, a cast of the first child. -/
  | literal (kind cast : Kind)
  /-- An operator whose children are all operands. -/
  | nary (kind : Kind) (needsOperand : Bool)
  /-- An operator with exactly two children. -/
  | comparison (kind : Kind)
  /-- An instruction on its first child. -/
  | unary (kind : Kind)
  /-- The first child bound to a variable. -/
  | assign
  /-- A call, by name or of the first child that does not hold the arguments. -/
  | call
  /-- A condition with one block or two. -/
  | condition
  /-- A loop over a range of integers. -/
  | countLoop
  /-- A loop over the items of a list. -/
  | eachLoop
  /-- A loop on a condition. -/
  | whileLoop
  /-- A change of a list, each operand inside a child of its own. -/
  | store (kind : Kind) (parts : List String)
  deriving DecidableEq, Repr

/-- The tags of instructions. -/
def Shape.tags : List (String × Shape) :=
  [("value", .reference), ("assign", .assign), ("not", .unary .not), ("call", .call),
   ("return", .unary .giveBack), ("if", .condition), ("for", .countLoop), ("each", .eachLoop),
   ("while", .whileLoop), ("assign-array", .store .arraySet ["array", "index", "value"]),
   ("insert-array", .store .arrayPush ["array", "value"]),
   ("integer", .literal .integer .integerCast), ("float", .literal .real .realCast),
   ("string", .literal .text .textCast), ("array", .nary .array false), ("add", .nary .add false),
   ("subtract", .nary .subtract true), ("multiply", .nary .multiply false),
   ("divide", .nary .divide true), ("and", .nary .and false), ("or", .nary .or false),
   ("equal", .comparison .equal), ("greater", .comparison .greater),
   ("lower", .comparison .lower)]

/-- The shape of the elements with a tag. -/
def Shape.ofTag? (tag : String) : Option Shape := tags.lookup tag

/-! ## Instructions -/

namespace Analysis

/-- An attribute that the element must have. -/
def attributeOf (n : Node) (name : String) : Analysis String :=
  require n (.missingAttribute n.tag name) (n.attribute? name)

/-- A child with the given tag that the element must have. -/
def wrapper (n : Node) (tag : String) : Analysis Node :=
  require n (.missingChild n.tag tag) (n.child? tag)

/-- The first child whose tag is not in `skip`. -/
def operand (n : Node) (what : String) (skip : List String) : Analysis Node :=
  require n (.missingChild n.tag what) (n.children.find? fun c => !skip.contains c.tag)

/-- The only expression inside the child with the given tag. -/
def wrapped (analyse : Node → Analysis Instr) (n : Node) (tag : String) : Analysis Instr := do
  let w ← wrapper n tag
  let inner ← require n (.missingChild n.tag tag) w.children.head?
  analyse inner

/-- The statements inside the child with the given tag. -/
def block (analyse : Node → Analysis Instr) (n : Node) (tag : String) : Analysis (List Instr) := do
  let w ← wrapper n tag
  each analyse w.children

/-- The instruction of an element with the given shape, its parts analysed by `analyse`. -/
def shaped (analyse : Node → Analysis Instr) (n : Node) : Shape → Analysis Instr
  | .reference => do
    let name ← attributeOf n "variable"
    pure (.mk .value (some name) [] [] [] (some n.span))
  | .literal kind cast =>
    match n.attribute? "value" with
    | some text => pure (.mk kind (some text) [] [] [] (some n.span))
    | none => do
      let child ← require n (.missingAttribute n.tag "value") n.children.head?
      let e ← analyse child
      pure (.mk cast none [e] [] [] (some n.span))
  | .nary kind needsOperand => do
    let operands ← each analyse n.children
    if needsOperand && operands.isEmpty then refuse n (.badChildCount n.tag 0)
    else pure (.mk kind none operands [] [] (some n.span))
  | .comparison kind =>
    if n.children.length = 2 then do
      let operands ← each analyse n.children
      pure (.mk kind none operands [] [] (some n.span))
    else refuse n (.badChildCount n.tag n.children.length)
  | .unary kind => do
    let child ← operand n "value" []
    let e ← analyse child
    pure (.mk kind none [e] [] [] (some n.span))
  | .assign => do
    let name ← attributeOf n "variable"
    let child ← operand n "value" []
    let e ← analyse child
    pure (.mk .assign (some name) [e] [] [] (some n.span))
  | .call => do
    let args ← block analyse n "arguments"
    match n.attribute? "function" with
    | some name => pure (.mk .callNamed (some name) args [] [] (some n.span))
    | none => do
      let child ← operand n "function" ["arguments"]
      let callee ← analyse child
      pure (.mk .call none (callee :: args) [] [] (some n.span))
  | .condition => do
    let child ← operand n "condition" ["then", "else"]
    let test ← analyse child
    let thenBlock ← block analyse n "then"
    match n.child? "else" with
    | none => pure (.mk .ifThen none [test] thenBlock [] (some n.span))
    | some other => do
      let elseBlock ← each analyse other.children
      pure (.mk .ifElse none [test] thenBlock elseBlock (some n.span))
  | .countLoop => do
    let name ← attributeOf n "variable"
    let bounds ← each (wrapped analyse n) ["from", "to", "step"]
    let body ← block analyse n "do"
    pure (.mk .countLoop (some name) bounds body [] (some n.span))
  | .eachLoop => do
    let name ← attributeOf n "variable"
    let child ← operand n "array" ["do"]
    let array ← analyse child
    let body ← block analyse n "do"
    pure (.mk .eachLoop (some name) [array] body [] (some n.span))
  | .whileLoop => do
    let child ← operand n "condition" ["do"]
    let test ← analyse child
    let body ← block analyse n "do"
    pure (.mk .whileLoop none [test] body [] (some n.span))
  | .store kind parts => do
    let operands ← each (wrapped analyse n) parts
    pure (.mk kind none operands [] [] (some n.span))

/-- The instruction of an element, its parts analysed by `analyse`. -/
def instrWith (analyse : Node → Analysis Instr) (n : Node) : Analysis Instr := do
  visit n
  let shape ← require n (.unknownTag n.tag) (Shape.ofTag? n.tag)
  shaped analyse n shape

/-- The instruction of an element of depth at most `depth`. -/
def instrOfDepth : (depth : Nat) → Node → Analysis Instr
  | 0, n => refuse n (.unknownTag n.tag)
  | depth + 1, n => instrWith (instrOfDepth depth) n

end Analysis

mutual

/-- The number of elements on the longest path down from an element. -/
def Markup.Node.depth : Node → Nat
  | .mk _ _ children _ => Markup.Node.depthAll children + 1

/-- The number of elements on the longest path down from a list of elements. -/
def Markup.Node.depthAll : List Node → Nat
  | [] => 0
  | n :: rest => max (Markup.Node.depth n) (Markup.Node.depthAll rest)

end

namespace Analysis

/-- The instruction of an element. -/
def instr (n : Node) : Analysis Instr :=
  instrOfDepth n.depth n

/-! ## Programs -/

/-- The name of a parameter. -/
def param (n : Node) : Analysis String :=
  require n (.unnamed "argument") (n.attribute? "name")

/-- The function of an element. -/
def functionDef (n : Node) : Analysis FunctionDef := do
  let name ← require n (.unnamed "function") (n.attribute? "name")
  let arguments ← wrapper n "arguments"
  let params ← each param arguments.children
  let body ← block instr n "body"
  pure ⟨name, params, body, n.span⟩

/-- The functions among the children of the root, and the main element; `main?` is the one found so
    far. -/
def topLevel (main? : Option Node) : List Node → Analysis (List FunctionDef × Option Node)
  | [] => pure ([], main?)
  | n :: rest =>
    if n.tag = "function" then do
      let f ← functionDef n
      let (fs, main?) ← topLevel main? rest
      pure (f :: fs, main?)
    else if n.tag = "main" then
      match main? with
      | some _ => refuse n .secondMain
      | none => topLevel (some n) rest
    else refuse n (.unexpectedAtTop n.tag)

/-- The program of a document. -/
def program (root : Node) : Analysis Program := do
  let (functions, main?) ← topLevel none root.children
  let main ← require root .noMain main?
  let statements ← each instr main.children
  pure ⟨functions, statements⟩

/-! ## Traces -/

/-- The trace line of a visit. -/
def visitLine (n : Node) : String :=
  "analyzing <" ++ n.tag ++ "> at " ++ n.span.format

/-- The trace of the analysis of a program. -/
def programTrace (a : Analysis Program) : List String :=
  a.visited.map visitLine ++ match a.outcome with
    | .ok p =>
      ["analyzed " ++ toString p.functions.length ++ " functions and "
        ++ toString p.main.length ++ " main instructions"]
    | .error _ => []

end Analysis

end TagScript
