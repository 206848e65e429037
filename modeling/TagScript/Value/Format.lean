import TagScript.Value.Heap

set_option autoImplicit false

/-! # The text of values

Printing shows a list item by item. An occurrence of a list inside itself is shown as `[...]`: what
counts is the path of lists that enclose the occurrence, so a list that merely occurs twice is shown
in full both times. The missing text is shown by a word for it; the absent value cannot be shown. -/

namespace TagScript

namespace Value

/-- The texts of several values, unless one of them cannot be shown. -/
def formatAll (format : Value → Except Halt String) : List Value → Except Halt (List String)
  | [] => .ok []
  | v :: rest =>
    match format v with
    | .error e => .error e
    | .ok shown => (formatAll format rest).map (shown :: ·)

/-- The text of a value inside the lists of `path`, of which at most `room` more can be entered. A
    nested text stands between quotes. -/
def formatWithin (h : Heap) :
    (room : Nat) → (path : List Nat) → (nested : Bool) → Value → Except Halt String
  | _, _, _, .int n => .ok (integerText n)
  | _, _, _, .real x => .ok (String.ofList x.format)
  | _, _, nested, .text s => .ok (if nested then "\"" ++ s ++ "\"" else s)
  | _, _, nested, .missingText => .ok (if nested then "\"None\"" else "None")
  | 0, _, _, .list _ => .ok "[...]"
  | room + 1, path, _, .list id =>
    if path.contains id then .ok "[...]"
    else
      (formatAll (formatWithin h room (id :: path) true) (h.items id).toList).map fun texts =>
        "[" ++ ", ".intercalate texts ++ "]"
  | _, _, _, .closure f => .ok ("<function " ++ f.name ++ ">")
  | _, _, _, .native f => .ok ("<native " ++ f.name ++ ">")
  | _, _, _, .other tag => .ok ("<" ++ tag ++ ">")
  | _, _, _, .absent => .error (.crash .absentInspected)

/-- The text of a value. A path without repetition holds at most as many lists as the heap, so the
    room never ends before the path does. -/
def format (h : Heap) (v : Value) (nested : Bool := false) : Except Halt String :=
  formatWithin h (h.lists.size + 1) [] nested v

/-- The text of a number, or a text itself, which may be the missing one. -/
inductive Wording where
  | given (s : String)
  | missing
  deriving DecidableEq, Repr

/-- The wording of a number or a text, which needs no heap. -/
def wording? : Value → Option Wording
  | .int n => some (.given (integerText n))
  | .real x => some (.given (String.ofList x.format))
  | .text s => some (.given s)
  | .missingText => some .missing
  | _ => none

end Value

end TagScript
