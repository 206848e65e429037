import TagScript.Text.Tabs
import TagScript.Markup.Cursor
import TagScript.Markup.Node
import TagScript.Markup.Entity

set_option autoImplicit false

/-! # Reading markup

A document is one element, with comments, declarations and doctypes allowed before and after it; a
fragment is one element alone. The reader works on the text with its tabs expanded: a reading
function gets the cursor at which it looks and gives back the cursor after what it recognised.

Reading stops in one of two ways. A *fail* inside the content of an element only means that no
child element stands there, and the enclosing element then looks for its closing tag. A *fatal*
stop ends the reading at once. A stop carries the elements that had been completed before it. -/

namespace TagScript.Markup

/-! ## Stops -/

/-- What the reader looked for and did not find. -/
inductive Expected where
  | element
  | name
  | tagEnd
  | closingTag
  | closingTagEnd
  | endOfText
  deriving DecidableEq, Repr

/-- The wording of an unmet expectation. -/
def Expected.message : Expected → String
  | .element => "Expected element"
  | .name => "Expected name"
  | .tagEnd => "Expected '/>'"
  | .closingTag => "Expected '</'"
  | .closingTagEnd => "Expected '>'"
  | .endOfText => "Expected end of text"

/-- Why the reader stopped. The causes other than an unmet expectation are fatal. -/
inductive Cause where
  | expected (what : Expected)
  | entity (fault : Entity.Fault)
  | mismatchedTags (opening closing : String)
  | duplicateAttribute (name : String)
  deriving DecidableEq, Repr

/-- The wording of a cause. -/
def Cause.message : Cause → String
  | .expected what => what.message
  | .entity fault => fault.message
  | .mismatchedTags opening closing =>
    "mismatched closing tag </" ++ closing ++ "> for <" ++ opening ++ ">"
  | .duplicateAttribute name => "duplicate attribute '" ++ name ++ "'"

/-- Whether the cause ends the reading at once. -/
def Cause.isFatal : Cause → Bool
  | .expected _ => false
  | _ => true

/-- A place at which reading stopped, with the elements completed before. -/
structure Stop where
  offset : Nat
  cause : Cause
  completed : List Node
  deriving Repr

/-- The stop, with more elements completed before it. -/
def Stop.after (earlier : List Node) (stop : Stop) : Stop :=
  { stop with completed := earlier ++ stop.completed }

/-- The stop at a cursor. -/
def Cursor.stop (c : Cursor) (cause : Cause) (completed : List Node) : Stop :=
  ⟨c.offset, cause, completed⟩

/-! ## Names and runs -/

/-- A character that may start a name. -/
def isNameStart (c : Char) : Bool := c.isAlpha || c == '_'

/-- A character that may continue a name. -/
def isNameRest (c : Char) : Bool :=
  c.isAlphanum || c == '_' || c == '.' || c == ':' || c == '-'

/-- The name that stands right at the cursor. -/
def name? (c : Cursor) : Option (List Char × Cursor) :=
  match c.rest with
  | [] => none
  | x :: rest =>
    if isNameStart x then
      some (x :: rest.takeWhile isNameRest, c.advance (rest.takeWhile isNameRest).length.succ)
    else none

/-- A name in lower case. -/
def lowerCase (name : List Char) : List Char := name.map Char.toLower

/-! ## Comments and declarations -/

/-- The cursor after a comment. -/
def comment? (c : Cursor) : Option Cursor :=
  (c.skipLayout.after? ['<', '!', '-', '-']).bind (·.afterFirst? ['-', '-', '>'])

/-- The cursor after a declaration. -/
def declaration? (c : Cursor) : Option Cursor :=
  (c.skipLayout.after? ['<', '?']).bind (·.afterFirst? ['?', '>'])

/-- The cursor after a doctype; its keyword may be in any case. -/
def doctype? (c : Cursor) : Option Cursor :=
  let c := c.skipLayout
  let keyword := ['<', '!', 'd', 'o', 'c', 't', 'y', 'p', 'e']
  if lowerCase (c.rest.take keyword.length) = keyword then
    (c.advance keyword.length).afterFirst? ['>']
  else none

/-- The cursor after a comment, a declaration or a doctype. -/
def misc? (c : Cursor) : Option Cursor :=
  (comment? c).or ((declaration? c).or (doctype? c))

/-- The cursor after all comments, declarations and doctypes that stand at it; `fuel` is at least
    the length of what is left. -/
def skipMisc : (fuel : Nat) → Cursor → Cursor
  | 0, c => c
  | fuel + 1, c =>
    match misc? c with
    | some c => skipMisc fuel c
    | none => c

/-- The cursor after a run of characters other than `<`, which layout may precede. -/
def textRun? (c : Cursor) : Option Cursor :=
  let c := c.skipLayout
  match c.rest with
  | [] => none
  | x :: _ => if x = '<' then none else some (c.skipWhile (· ≠ '<'))

/-! ## Attributes -/

/-- An attribute as it is written: its name, the raw text between the quotes, the cursor at the
    opening quote and the cursor after the closing one. -/
structure RawAttribute where
  name : List Char
  raw : List Char
  quote : Cursor
  rest : Cursor

/-- The quoted text that stands right at the cursor, and the cursor after it. A quoted text holds
    neither its quote nor `<`. -/
def quotedText? (c : Cursor) : Option (List Char × Cursor) :=
  match c.rest with
  | [] => none
  | quote :: rest =>
    if quote = Text.doubleQuote ∨ quote = Text.singleQuote then
      let raw := rest.takeWhile fun x => x ≠ quote ∧ x ≠ '<'
      ((c.advance raw.length.succ).after? [quote]).map (raw, ·)
    else none

/-- The attribute at the cursor, if all its parts are there. -/
def rawAttribute? (c : Cursor) : Option RawAttribute := do
  let (name, c) ← name? c.skipLayout
  let c ← c.skipLayout.after? ['=']
  let quote := c.skipLayout
  let (raw, rest) ← quotedText? quote
  pure ⟨name, raw, quote, rest⟩

/-- The attributes at the cursor, their values decoded; `fuel` is at least the length of what is
    left. -/
def attributes : (fuel : Nat) → Cursor → Except Stop (List (String × String) × Cursor)
  | 0, c => .ok ([], c)
  | fuel + 1, c =>
    match rawAttribute? c with
    | none => .ok ([], c)
    | some a =>
      match Entity.decode a.raw with
      | .error fault => .error (a.quote.stop (.entity fault) [])
      | .ok value =>
        match attributes fuel a.rest with
        | .error stop => .error stop
        | .ok (more, rest) => .ok ((String.ofList a.name, String.ofList value) :: more, rest)

/-- The first name that has occurred before. -/
def firstDuplicate? (seen : List String) : List (String × String) → Option String
  | [] => none
  | (name, _) :: rest =>
    if seen.contains name then some name else firstDuplicate? (name :: seen) rest

/-! ## Elements -/

/-- The element from `first` to `last`, unless an attribute occurs twice. -/
def complete (file : String) (first : Cursor) (tag : List Char)
    (attributes : List (String × String)) (children : List Node) (selfClosing : Bool)
    (last : Cursor) : Except Stop (Node × Cursor) :=
  match firstDuplicate? [] attributes with
  | some name => .error (first.stop (.duplicateAttribute name) children)
  | none =>
    .ok (.mk (String.ofList (lowerCase tag)) attributes children
      ⟨first.span file last, selfClosing⟩, last)

/-- What the content of an element holds: its child elements, the elements completed inside a
    child that failed, and the cursor after it. -/
structure Content where
  children : List Node
  lost : List Node
  rest : Cursor

/-- The content at the cursor: comments, child elements and runs of text, as many as there are;
    `fuel` is at least the length of what is left. -/
def content (element : Cursor → Except Stop (Node × Cursor)) :
    (fuel : Nat) → Cursor → Except Stop Content
  | 0, c => .ok ⟨[], [], c⟩
  | fuel + 1, c =>
    match comment? c with
    | some rest => content element fuel rest
    | none =>
      match element c with
      | .ok (node, rest) =>
        match content element fuel rest with
        | .ok more => .ok { more with children := node :: more.children }
        | .error stop => .error (stop.after [node])
      | .error stop =>
        if stop.cause.isFatal then .error stop
        else match textRun? c with
          | some rest => content element fuel rest
          | none => .ok ⟨[], stop.completed, c⟩

/-- The closing tag of the element that starts at `first`. -/
def closeElement (file : String) (first : Cursor) (tag : List Char)
    (attributes : List (String × String)) (inner : Content) : Except Stop (Node × Cursor) :=
  let completed := inner.children ++ inner.lost
  let c := inner.rest.skipLayout
  match c.after? ['<', '/'] with
  | none => .error (c.stop (.expected .closingTag) completed)
  | some c =>
    match name? c with
    | none => .error (c.stop (.expected .name) completed)
    | some (closing, c) =>
      let c := c.skipLayout
      match c.after? ['>'] with
      | none => .error (c.stop (.expected .closingTagEnd) completed)
      | some last =>
        if lowerCase closing = lowerCase tag then
          complete file first tag attributes inner.children false last
        else
          .error (first.stop
            (.mismatchedTags (String.ofList tag) (String.ofList closing)) completed)

/-- The element at the cursor; `fuel` is more than the length of what is left. -/
def element (file : String) : (fuel : Nat) → Cursor → Except Stop (Node × Cursor)
  | 0, c => .error (c.stop (.expected .element) [])
  | fuel + 1, c =>
    let first := c.skipLayout
    match first.after? ['<'] with
    | none => .error (first.stop (.expected .element) [])
    | some c =>
      match name? c with
      | none => .error (c.stop (.expected .name) [])
      | some (tag, c) =>
        match attributes fuel c with
        | .error stop => .error stop
        | .ok (attrs, c) =>
          let c := c.skipLayout
          match c.after? ['/', '>'], c.after? ['>'] with
          | some last, _ => complete file first tag attrs [] true last
          | none, some rest =>
            match content (element file fuel) fuel rest with
            | .error stop => .error stop
            | .ok inner => closeElement file first tag attrs inner
          | none, none => .error (c.stop (.expected .tagEnd) [])

/-- The whole of what is left is layout. -/
def endOfText (root : Node) (c : Cursor) : Except Stop Node :=
  if c.skipLayout.rest = [] then .ok root
  else .error (c.skipLayout.stop (.expected .endOfText) [root])

/-! ## Documents and fragments -/

/-- Which kind of source is read. -/
inductive Mode where
  | document
  | fragment
  deriving DecidableEq, Repr

/-- The text that is read: a fragment is trimmed, and tabs are expanded. -/
def Mode.prepare : Mode → List Char → List Char
  | .document, s => Text.expandTabs s
  | .fragment, s => Text.expandTabs (Text.trim s)

/-- The cursor after the comments, declarations and doctypes that the mode allows around the
    element. -/
def Mode.skip : Mode → Cursor → Cursor
  | .document, c => skipMisc c.rest.length c
  | .fragment, c => c

/-- The tree of a prepared text. -/
def readPrepared (mode : Mode) (file : String) (text : List Char) : Except Stop Node :=
  match element file (text.length + 1) (mode.skip (.start text)) with
  | .error stop => .error stop
  | .ok (root, rest) => endOfText root (mode.skip rest)

/-- The tree of a text. -/
def read (mode : Mode) (file text : String) : Except Stop Node :=
  readPrepared mode file (mode.prepare text.toList)

/-- The elements that reading has completed, in the order of their completion. -/
def completed : Except Stop Node → List Node
  | .ok root => root.postorder
  | .error stop => Node.postorderAll stop.completed

end TagScript.Markup
