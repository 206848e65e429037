import TagScript.Eval.Run
import TagScript.Text.Split
import TagScript.Value.Arithmetic

set_option autoImplicit false

/-! # Native functions

A native function checks the number and the types of its arguments, and then goes on step by step:
it looks at the store, which may halt the call, and changes it. A change is not taken back if the
call halts later. -/

namespace TagScript

/-- The refusal of arguments that do not fit the expected types, numbered from `position`. -/
def checkTypes (name : String) (position : Nat) :
    List Value → List (Option String) → Except Halt Unit
  | v :: args, expected :: rest =>
    match expected with
    | none => checkTypes name (position + 1) args rest
    | some type =>
      if v.type? = some type then checkTypes name (position + 1) args rest
      else .error (.wrongType name ("argument " ++ integerText position) type v)
  | _, _ => .ok ()

/-- The refusal of arguments of the wrong number or types; a type that is left open accepts any
    value. -/
def checkArguments (name : String) (args : List Value) (expected : List (Option String)) :
    Except Halt Unit :=
  if args.length = expected.length then checkTypes name 1 args expected
  else .error (.arity name expected.length args.length)

namespace Native

/-- The types of the arguments. -/
def signature : Native → List (Option String)
  | .print => [none]
  | .printLine => [none]
  | .input => []
  | .stringSplit => [some "Text", some "Text"]
  | .toAscii => [some "Integer"]
  | .fromAscii => [some "Text"]
  | .arraySet => [some "List", some "Integer", none]
  | .arrayPush => [some "List", none]
  | .arrayPop => [some "List"]
  | .arrayGet => [some "List", some "Integer"]
  | .arrayLength => [some "List"]
  | .writeFile => [some "Text", some "Text", none]
  | .readFile => [some "Text"]
  | .getArgs _ => []

/-- The pieces between the first and the last occurrence of a delimiter; without a delimiter, the
    characters. -/
def splitPieces (target delimiter : List Char) : List (List Char) :=
  if delimiter.isEmpty then target.map ([·])
  else ((Text.splitAtText delimiter target).drop 1).dropLast

/-- The words of a text but for the first and the last one. -/
def innerWords (target : List Char) : List (List Char) :=
  ((Text.words target).drop 1).dropLast

/-- The text of one ASCII character. -/
def asciiText (code : Int) : Except Halt Value :=
  if 0 ≤ code ∧ code ≤ 127 then .ok (.text (String.singleton (Char.ofNat code.toNat)))
  else .error (.refused "to-ascii" (.notAsciiCode code))

/-- The code of a text that is one ASCII character. -/
def asciiCode (s : String) : Except Halt Value :=
  match s.toList with
  | [c] =>
    if c.toNat < 128 then .ok (.int c.toNat)
    else .error (.refused "from-ascii" (.notAsciiCharacter s))
  | _ => .error (.refused "from-ascii" (.notAsciiCharacter s))

/-- A path that can be given to the file system. -/
def checkPath (path : String) : Except Halt Unit :=
  if path.toList.contains '\x00' then .error (.crash .nullInPath) else .ok ()

/-- The fault of a file that cannot be read or written. -/
def inaccessible (path : String) : Halt := .fault (.inaccessibleFile path) none

/-- The text of a file. -/
def readText (files : Files) (path : String) : Except Halt String :=
  match files.read path with
  | .error _ => .error (inaccessible path)
  | .ok bytes =>
    match fileText bytes with
    | .error _ => .error (inaccessible path)
    | .ok text => .ok text

/-- The place of a file that can be opened to be written. -/
def openable (files : Files) (path : String) : Except Halt Place :=
  match files.target path with
  | .error _ => .error (inaccessible path)
  | .ok place => .ok place

/-- A new list of texts. -/
def newTexts (pieces : List (List Char)) : Run (Option Value) := do
  let v ← Run.change (·.newList (pieces.map fun p => .text (String.ofList p)))
  pure (some v)

/-- The file of a path opened to be written. -/
def openFile (path : String) (append : Value) : Run Place := do
  let append ← Run.inspect fun s => append.isTruthy s.heap
  Run.lift (checkPath path)
  let place ← Run.inspect fun s => openable s.files path
  Run.update fun s => { s with files := s.files.opened place append }
  pure place

/-- A text written at the end of the file at a place. -/
def writeAt (place : Place) (contents : String) : Run Unit :=
  Run.update fun s => { s with files := s.files.extended place (Utf8.encode contents.toList) }

/-- A call with arguments that have been checked. That a text to be written is the missing one is
    found when the file has been opened. -/
def perform (f : Native) (args : List Value) : Run (Option Value) :=
  match f, args with
  | .print, [v] => do
    let shown ← Run.inspect fun s => v.format s.heap
    Run.update (·.print shown)
    pure (some v)
  | .printLine, [v] => do
    let shown ← Run.inspect fun s => v.format s.heap
    Run.update (·.print (shown ++ "\n"))
    pure (some v)
  | .input, [] => do
    Run.inspect (·.checkLine)
    let line ← Run.change (·.readLine)
    pure (some (.text line))
  | .stringSplit, [.text target, .text delimiter] =>
    newTexts (splitPieces target.toList delimiter.toList)
  | .stringSplit, [.text target, .missingText] => newTexts (innerWords target.toList)
  | .stringSplit, [.missingText, .text delimiter] =>
    Run.halt (.crash (.noText (if delimiter.isEmpty then .spelling else .splitting)))
  | .stringSplit, [.missingText, .missingText] => Run.halt (.crash (.noText .splitting))
  | .toAscii, [.int code] => do
    let v ← Run.lift (asciiText code)
    pure (some v)
  | .fromAscii, [.text t] => do
    let v ← Run.lift (asciiCode t)
    pure (some v)
  | .fromAscii, [.missingText] => Run.halt (.crash (.noText .length))
  | .arraySet, [.list id, .int index, v] => do
    Run.setItem "array-set" id index v
    pure none
  | .arrayPush, [.list id, v] => do
    Run.pushItem "array-push" id v
    pure none
  | .arrayPop, [.list id] => do
    let v ← Run.popItem "array-pop" id
    pure v.present?
  | .arrayGet, [.list id, .int index] => do
    let item ← Run.inspect (·.heap.get "array-get" id index)
    let v ← Run.lift item.copy
    pure (some v)
  | .arrayLength, [.list id] => do
    let v ← Run.inspect fun s => Value.integer "integer" (s.heap.length id)
    pure (some v)
  | .writeFile, [.text path, .text contents, append] => do
    let place ← openFile path append
    writeAt place contents
    pure none
  | .writeFile, [.text path, .missingText, append] => do
    let _ ← openFile path append
    Run.halt (.crash (.noText .contents))
  | .writeFile, [.missingText, _, append] => do
    let _ ← Run.inspect fun s => append.isTruthy s.heap
    Run.halt (.crash (.noText .path))
  | .readFile, [.text path] => do
    Run.lift (checkPath path)
    let text ← Run.inspect fun s => readText s.files path
    pure (some (.text text))
  | .readFile, [.missingText] => Run.halt (.crash (.noText .path))
  | .getArgs arguments, [] => do
    let v ← Run.change (·.newList (arguments.map .text))
    pure (some v)
  | f, args => Run.halt (.arity f.name f.signature.length args.length)

/-- A call. -/
def call (f : Native) (args : List Value) : Run (Option Value) := do
  Run.lift (checkArguments f.name args f.signature)
  perform f args

end Native

end TagScript
