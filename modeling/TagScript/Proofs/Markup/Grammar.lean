import TagScript.Markup.Reader

set_option autoImplicit false

/-! # The grammar of markup

What a document, a fragment and an element are, said of texts and without a reader: a text is put
together from pieces, in any order in which they fit. Nothing is tried in turn and nothing is taken
greedily, except that names are as long as they can be and that comments, declarations and doctypes
end where they first can.

A tree says where its elements stand, so derivations of elements know the text before them. -/

namespace TagScript.Markup

/-! ## Names, layout and quoted texts -/

/-- The text, if there is any, starts with a character outside the class. -/
def StartsWithout (p : Char → Bool) (s : List Char) : Prop := ∀ x ∈ s.head?, p x = false

/-- A text of layout characters. -/
def IsLayout (s : List Char) : Prop := ∀ c ∈ s, Text.isLayout c = true

/-- A character that starts a name, and then characters that continue it. -/
def IsName : List Char → Prop
  | [] => False
  | x :: rest => isNameStart x = true ∧ ∀ c ∈ rest, isNameRest c = true

instance (s : List Char) : Decidable (IsLayout s) :=
  decidable_of_iff (s.all Text.isLayout = true) List.all_eq_true

instance : (s : List Char) → Decidable (IsName s)
  | [] => isFalse id
  | x :: rest =>
    decidable_of_iff (isNameStart x = true ∧ rest.all isNameRest = true)
      (and_congr_right fun _ => List.all_eq_true)

/-- One attribute, with the layout before it: a name and a quoted value that can be decoded. -/
inductive Attribute : List Char → String × String → Prop where
  | mk {gap name left right raw value : List Char} {quote : Char} :
      IsLayout gap → IsName name → IsLayout left → IsLayout right →
      (quote = Text.doubleQuote ∨ quote = Text.singleQuote) →
      (∀ c ∈ raw, c ≠ quote ∧ c ≠ '<') →
      Entity.decode raw = .ok value →
      Attribute (gap ++ name ++ left ++ ['='] ++ right ++ [quote] ++ raw ++ [quote])
        (String.ofList name, String.ofList value)

/-- Attributes, one after another. -/
inductive Attributes : List Char → List (String × String) → Prop where
  | nil : Attributes [] []
  | cons {s rest : List Char} {a : String × String} {as : List (String × String)} :
      Attribute s a → Attributes rest as → Attributes (s ++ rest) (a :: as)

/-! ## Comments, declarations and doctypes -/

/-- The body and the terminator after it hold the terminator at their end and nowhere before. -/
def EndsAtFirst (terminator body : List Char) : Prop :=
  ∀ u v, body ++ terminator = u ++ terminator ++ v → v = []

/-- A comment. -/
inductive Comment : List Char → Prop where
  | mk {body : List Char} : EndsAtFirst ['-', '-', '>'] body →
      Comment (['<', '!', '-', '-'] ++ body ++ ['-', '-', '>'])

/-- A comment, a declaration or a doctype. -/
inductive Misc : List Char → Prop where
  | comment {s : List Char} : Comment s → Misc s
  | declaration {body : List Char} : EndsAtFirst ['?', '>'] body →
      Misc (['<', '?'] ++ body ++ ['?', '>'])
  | doctype {keyword body : List Char} :
      lowerCase keyword = ['<', '!', 'd', 'o', 'c', 't', 'y', 'p', 'e'] →
      EndsAtFirst ['>'] body → Misc (keyword ++ body ++ ['>'])

/-- What may stand before and after the element of a document. -/
inductive Surroundings : List Char → Prop where
  | layout {s : List Char} : IsLayout s → Surroundings s
  | misc {gap s rest : List Char} : IsLayout gap → Misc s → Surroundings rest →
      Surroundings (gap ++ s ++ rest)

/-! ## Elements -/

/-- The span of the text `s` that stands after `before`. -/
def spanAfter (file : String) (before s : List Char) : Span where
  file := file
  startLine := Text.lineAt before before.length
  startColumn := Text.columnAt before before.length
  endLine := Text.lineAt (before ++ s) (before ++ s).length
  endColumn := Text.columnAt (before ++ s) (before ++ s).length

/-- The text between `<` and the end of an opening tag: the tag, as long as it can be, attributes no
    two of which have the same name, and layout. What follows in the opening tag is `close`. -/
structure Opening (close : List Char) (tag : List Char) (attributes : List (String × String))
    (s : List Char) : Prop where
  isName : IsName tag
  parts : ∃ attrs gap, s = tag ++ attrs ++ gap ∧ Attributes attrs attributes ∧ IsLayout gap ∧
    StartsWithout isNameRest (attrs ++ gap ++ close)
  distinct : (attributes.map Prod.fst).Nodup

mutual

/-- The element of a text that stands after `before`. -/
inductive Element (file : String) : (before s : List Char) → Node → Prop where
  | empty {before opening tag : List Char} {attributes : List (String × String)} :
      Opening ['/', '>'] tag attributes opening →
      Element file before (['<'] ++ opening ++ ['/', '>'])
        (.mk (String.ofList (lowerCase tag)) attributes []
          ⟨spanAfter file before (['<'] ++ opening ++ ['/', '>']), true⟩)
  | full {before opening tag inner closing gap : List Char}
      {attributes : List (String × String)} {children : List Node} :
      Opening ['>'] tag attributes opening →
      Contents file (before ++ (['<'] ++ opening ++ ['>'])) inner children →
      IsName closing → lowerCase closing = lowerCase tag → IsLayout gap →
      Element file before
        (['<'] ++ opening ++ ['>'] ++ inner ++ ['<', '/'] ++ closing ++ gap ++ ['>'])
        (.mk (String.ofList (lowerCase tag)) attributes children
          ⟨spanAfter file before
            (['<'] ++ opening ++ ['>'] ++ inner ++ ['<', '/'] ++ closing ++ gap ++ ['>']),
            false⟩)

/-- The child elements of a text that stands after `before`: comments, elements and texts without
    `<`, in any order. -/
inductive Contents (file : String) : (before s : List Char) → List Node → Prop where
  | nil {before : List Char} : Contents file before [] []
  | comment {before s rest : List Char} {ns : List Node} :
      Comment s → Contents file (before ++ s) rest ns → Contents file before (s ++ rest) ns
  | element {before s rest : List Char} {n : Node} {ns : List Node} :
      Element file before s n → Contents file (before ++ s) rest ns →
      Contents file before (s ++ rest) (n :: ns)
  | text {before s rest : List Char} {ns : List Node} :
      s ≠ [] → '<' ∉ s → Contents file (before ++ s) rest ns → Contents file before (s ++ rest) ns

end

/-! ## Documents and fragments -/

/-- What may stand around the element: in a fragment layout alone. -/
def Mode.Around : Mode → List Char → Prop
  | .document => Surroundings
  | .fragment => IsLayout

/-- The tree of a prepared text. -/
inductive Derives (mode : Mode) (file : String) : List Char → Node → Prop where
  | mk {before s after : List Char} {root : Node} :
      mode.Around before → Element file before s root → mode.Around after →
      Derives mode file (before ++ s ++ after) root

end TagScript.Markup
