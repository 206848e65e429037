import TagScript.Span
import TagScript.Text.Lines
import TagScript.Text.Quoted

set_option autoImplicit false

/-! # Markup trees

A markup tree is an element with its attributes in the order of the document and its child
elements; text between the children is not kept. Beside what the element says, a node knows its
*extent*: where the element stands and whether it was written as one self-closing tag. -/

namespace TagScript.Markup

/-- How an element stands in its source. -/
structure Extent where
  span : Span
  selfClosing : Bool
  deriving DecidableEq, Repr

/-- An element with its attributes and child elements. -/
inductive Node where
  | mk (tag : String) (attributes : List (String × String)) (children : List Node)
      (extent : Extent)
  deriving Repr

namespace Node

/-- The tag, in lower case. -/
def tag : Node → String
  | mk t _ _ _ => t

/-- The attributes in document order; no name occurs twice. -/
def attributes : Node → List (String × String)
  | mk _ as _ _ => as

/-- The child elements in document order. -/
def children : Node → List Node
  | mk _ _ cs _ => cs

/-- Where and how the element is written. -/
def extent : Node → Extent
  | mk _ _ _ e => e

/-- The span of the element. -/
def span (n : Node) : Span := n.extent.span

/-- The value of an attribute. -/
def attribute? (n : Node) (name : String) : Option String :=
  n.attributes.lookup name

/-- The first child with the given tag. -/
def child? (n : Node) (tag : String) : Option Node :=
  n.children.find? (·.tag == tag)

/-! ## Views -/

mutual

/-- The nodes of a tree, an element after its children: the order in which reading completes
    them. -/
def postorder : Node → List Node
  | mk t as cs e => postorderAll cs ++ [mk t as cs e]

/-- The nodes of a list of trees, an element after its children. -/
def postorderAll : List Node → List Node
  | [] => []
  | n :: rest => postorder n ++ postorderAll rest

end

mutual

/-- The elements with the given tag, in document order. -/
def withTag (wanted : String) : Node → List Node
  | mk t as cs e =>
    if t = wanted then mk t as cs e :: withTagAll wanted cs else withTagAll wanted cs

/-- The elements with the given tag in a list of trees, in document order. -/
def withTagAll (wanted : String) : List Node → List Node
  | [] => []
  | n :: rest => withTag wanted n ++ withTagAll wanted rest

end

/-! ## Printing -/

/-- The line of an element in the outline: its tag, and its attributes in brackets if it has any. -/
def headline (tag : String) (attributes : List (String × String)) : String :=
  if attributes.isEmpty then tag
  else tag ++ " [" ++ " ".intercalate (attributes.map fun (k, v) => k ++ "=" ++ Text.quoted v)
    ++ "]"

mutual

/-- The outline of a tree: one line for each element, children indented below their parent. -/
def outline (level : Nat) : Node → String
  | mk t as cs _ => Text.indentation level ++ headline t as ++ "\n" ++ outlineAll (level + 1) cs

/-- The outlines of a list of trees. -/
def outlineAll (level : Nat) : List Node → String
  | [] => ""
  | n :: rest => outline level n ++ outlineAll level rest

end

/-- Attributes as a braced list of quoted names and values. -/
def attributeList (attributes : List (String × String)) : String :=
  "\x7b" ++ ", ".intercalate (attributes.map fun (k, v) => Text.quoted k ++ ": " ++ Text.quoted v)
    ++ "\x7d"

mutual

/-- The one-line form of a tree. -/
def inline : Node → String
  | mk t as cs _ =>
    if cs.isEmpty then t ++ "(" ++ attributeList as ++ ")"
    else t ++ "(" ++ attributeList as ++ ", [" ++ ", ".intercalate (inlineAll cs) ++ "])"

/-- The one-line forms of a list of trees. -/
def inlineAll : List Node → List String
  | [] => []
  | n :: rest => inline n :: inlineAll rest

end

/-- The trace line of an element that has been read. -/
def traceLine (n : Node) : String :=
  let shape :=
    if n.extent.selfClosing then "<" ++ n.tag ++ "/>"
    else "<" ++ n.tag ++ "> with " ++ toString n.children.length ++ " children"
  "parsed " ++ shape ++ " at " ++ n.span.format

end Node

end TagScript.Markup
