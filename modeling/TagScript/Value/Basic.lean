import TagScript.Fault
import TagScript.Program.Instr
import TagScript.Binary64.Decimal

set_option autoImplicit false

/-! # Values

A value is a number, a text, a list or something that can be called. A list value is a reference to
a shared list of the heap, so that all copies of it see one sequence of items. Functions carry no
environment. -/

namespace TagScript

/-- The functions that every program finds in its root environment. Getting the arguments depends
    on those of the run. -/
inductive Native where
  | print
  | printLine
  | input
  | stringSplit
  | toAscii
  | fromAscii
  | arraySet
  | arrayPush
  | arrayPop
  | arrayGet
  | arrayLength
  | writeFile
  | readFile
  | getArgs (arguments : List String)
  deriving DecidableEq, Repr

/-- The name of a native function. -/
def Native.name : Native → String
  | .print => "print"
  | .printLine => "print-line"
  | .input => "input"
  | .stringSplit => "string-split"
  | .toAscii => "to-ascii"
  | .fromAscii => "from-ascii"
  | .arraySet => "array-set"
  | .arrayPush => "array-push"
  | .arrayPop => "array-pop"
  | .arrayGet => "array-get"
  | .arrayLength => "array-length"
  | .writeFile => "write-file"
  | .readFile => "read-file"
  | .getArgs _ => "get-args"

/-- The native functions of a run with the given arguments, in the order of the library. -/
def Native.library (arguments : List String) : List Native :=
  [.print, .printLine, .input, .stringSplit, .toAscii, .fromAscii, .arraySet, .arrayPush,
   .arrayPop, .arrayGet, .arrayLength, .writeFile, .readFile, .getArgs arguments]

/-- A function of the program as a value. -/
structure Closure where
  name : String
  params : List String
  body : List Instr
  deriving Repr

/-- A value. The missing text is that of a literal that was given none: it can be passed on, but not
    read. A value of an unknown type has nothing but its tag. The absent value stands where a
    binding, an argument or an item has been given no value at all. -/
inductive Value where
  | int (n : Int)
  | real (x : Binary64)
  | text (s : String)
  | missingText
  | list (id : Nat)
  | closure (f : Closure)
  | native (f : Native)
  | other (tag : String)
  | absent
  deriving Repr

instance : Inhabited Value := ⟨.absent⟩

namespace Value

/-- The type of a value; the absent value has none. -/
def type? : Value → Option String
  | .int _ => some "Integer"
  | .real _ => some "Real"
  | .text _ => some "Text"
  | .missingText => some "Text"
  | .list _ => some "List"
  | .closure _ => some "Closure"
  | .native _ => some "NativeFunction"
  | .other tag => some tag
  | .absent => none

/-- The type of a value in words. -/
def typeName (v : Value) : String := v.type?.getD "None"

/-- The type as messages about operands name it: one that is lacking or nameless is unknown. -/
def shownType (v : Value) : String :=
  match v.type? with
  | some type => if type.isEmpty then "Unknown" else type
  | none => "Unknown"

/-- The value, unless it is the absent one. -/
def present? : Value → Option Value
  | .absent => none
  | v => some v

/-- A copy of a value; the absent value has none. -/
def copy : Value → Except Halt Value
  | .absent => .error (.crash .absentCopied)
  | v => .ok v

/-- The types of several values. -/
def shownTypes (vs : List Value) : String := ", ".intercalate (vs.map shownType)

/-- A truth value. -/
def ofBool (b : Bool) : Value := .int (if b then 1 else 0)

/-- The least integer. -/
def minInteger : Int := -9223372036854775808

/-- The greatest integer. -/
def maxInteger : Int := 9223372036854775807

/-- The integer as a value, if it fits in 64 bits. -/
def integer (op : String) (n : Int) : Except Halt Value :=
  if minInteger ≤ n ∧ n ≤ maxInteger then .ok (.int n) else .error (.refused op .overflow)

end Value

/-- The fault of a call with the wrong number of arguments, not yet placed. -/
def Halt.arity (function : String) (expected actual : Int) : Halt :=
  .fault (.arity function expected actual) none

/-- The refusal of a value of the wrong type. -/
def Halt.wrongType (op what expected : String) (actual : Value) : Halt :=
  .refused op (.wrongType what expected actual.shownType)

/-- The refusal of operands. -/
def Halt.unsupported (op : String) (operands : List Value) : Halt :=
  .refused op (.unsupportedTypes (operands.map Value.shownType))

end TagScript
