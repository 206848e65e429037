import TagScript.Span
import TagScript.Text.Quoted
import TagScript.Text.Numeral

set_option autoImplicit false

/-! # Faults

What can go wrong while a program runs. A *fault* is an error of the running program; it is placed
at the innermost instruction under evaluation. A *crash* is a failure of the machine under the
program, which no instruction is blamed for. -/

namespace TagScript

/-- The text of an integer. -/
def integerText (n : Int) : String := String.ofList (Text.integerChars n)

/-- Why an operation refuses its operands. -/
inductive Reason where
  | overflow
  | notAnInteger (text : String)
  | notAReal (text : String)
  | unsupportedTypes (types : List String)
  | noOperand
  | notANumber
  | incomparable (left right : String)
  | noConversion (source target : String)
  | unknownType (tag : String)
  | outOfBounds (index length : Int)
  | iterated
  | emptyList
  | noValue
  | badStep (step : Int)
  | wrongType (what expected actual : String)
  | notCallable (type : String)
  | notAsciiCode (code : Int)
  | notAsciiCharacter (text : String)
  deriving DecidableEq, Repr

/-- The wording of a reason. -/
def Reason.message : Reason → String
  | .overflow => "integer overflow"
  | .notAnInteger text => "cannot parse '" ++ text ++ "' as an integer"
  | .notAReal text => "cannot parse '" ++ text ++ "' as a real"
  | .unsupportedTypes types => "unsupported operand types (" ++ ", ".intercalate types ++ ")"
  | .noOperand => "needs at least one operand"
  | .notANumber => "incomparable values (NaN)"
  | .incomparable left right =>
    "incompatible comparison values (" ++ left ++ ", " ++ right ++ ")"
  | .noConversion source target => "cannot convert " ++ source ++ " to " ++ target
  | .unknownType tag => "unknown value type " ++ tag
  | .outOfBounds index length =>
    "index " ++ integerText index ++ " out of bounds for length " ++ integerText length
  | .iterated => "list modified during iteration"
  | .emptyList => "cannot pop from an empty list"
  | .noValue => "child instruction produced no value"
  | .badStep step => "step must be positive, got " ++ integerText step
  | .wrongType what expected actual =>
    "invalid value for " ++ what ++ ": expected " ++ expected ++ ", got " ++ actual
  | .notCallable type => "cannot call a value of type " ++ type
  | .notAsciiCode code => integerText code ++ " is not an ASCII code"
  | .notAsciiCharacter text => "expected one ASCII character, got " ++ Text.quoted text

/-- An error of the running program. -/
inductive Fault where
  | unknownVariable (name : Option String)
  | unknownFunction (name : Option String)
  | arity (function : String) (expected actual : Int)
  | operation (name : String) (reason : Reason)
  | inaccessibleFile (path : String)
  | callDepth (limit : Int)
  | unknownInstruction (word : String)
  deriving DecidableEq, Repr

/-- How a name that may be lacking is shown. -/
def shownName (name : Option String) : String := name.getD "None"

/-- The wording of a fault. -/
def Fault.message : Fault → String
  | .unknownVariable name => "unknown variable '" ++ shownName name ++ "'"
  | .unknownFunction name => "unknown function '" ++ shownName name ++ "'"
  | .arity function expected actual =>
    "bad argument count in call to '" ++ function ++ "': expected " ++ integerText expected
      ++ ", got " ++ integerText actual
  | .operation name reason => name ++ ": " ++ reason.message
  | .inaccessibleFile path => "inaccessible file '" ++ path ++ "'"
  | .callDepth limit => "maximum call depth (" ++ integerText limit ++ ") exceeded"
  | .unknownInstruction word => "unknown instruction type '" ++ word ++ "'"

/-- What a text is needed for, in a crash because there is none. -/
inductive TextUse where
  /-- To be read as a number. -/
  | numeral
  /-- To be measured. -/
  | length
  /-- To be joined with others, at a position among them. -/
  | joining (position : Nat)
  /-- To be compared; one side may have a text. -/
  | comparison (left right : Bool)
  /-- To be taken apart into characters. -/
  | spelling
  /-- To be split at a delimiter. -/
  | splitting
  /-- As the path of a file. -/
  | path
  /-- As the contents of a file. -/
  | contents
  deriving DecidableEq, Repr

/-- The wording of a need. -/
def TextUse.message : TextUse → String
  | .numeral => "no text to read"
  | .length => "no text to measure"
  | .joining position => "no text to join at position " ++ integerText position
  | .comparison _ _ => "no text to compare"
  | .spelling => "no text to spell"
  | .splitting => "no text to split"
  | .path => "no path"
  | .contents => "no contents"

/-- A failure of the machine under the program. -/
inductive Crash where
  /-- A call under a scope policy that does not exist. -/
  | unknownScope (word : String)
  /-- A null character in the path of a file. -/
  | nullInPath
  /-- A text that only looks like a real number. -/
  | unconvertible (text : String)
  /-- A script that is a directory. -/
  | scriptIsDirectory (path : String)
  /-- A script below something that is no directory. -/
  | scriptUnderFile (path : String)
  /-- A script with a path, or a name in it, beyond the limits of the file system. -/
  | scriptNameTooLong (path : String)
  /-- A depth option that was given no number. -/
  | noDepth
  /-- A call depth for which there is no room. -/
  | noRoom
  /-- A look at the absent value. -/
  | absentInspected
  /-- A copy of the absent value. -/
  | absentCopied
  /-- An instruction without the operand that it starts from. -/
  | noOperand
  /-- An instruction with the wrong number of operands. -/
  | operandCount (expected actual : Nat)
  /-- A text that was never given and is needed. -/
  | noText (use : TextUse)
  /-- An integer that has to become a real number and is beyond all of them. -/
  | beyondReals
  /-- A numeral with more digits than are ever read. -/
  | tooManyDigits (count : Nat)
  /-- Input that is no text, where a line of it is to be read. -/
  | undecodableInput
  /-- A reference to a surrogate, which no text here holds: what follows from it is left open. -/
  | surrogate (code : Nat)
  deriving DecidableEq, Repr

/-- The wording of a crash. -/
def Crash.message : Crash → String
  | .unknownScope word => "unknown scope policy: " ++ word
  | .nullInPath => "embedded null byte"
  | .unconvertible text => "could not convert string to float: " ++ Text.quoted text
  | .scriptIsDirectory path => "[Errno 21] Is a directory: " ++ Text.quoted path
  | .scriptUnderFile path => "[Errno 20] Not a directory: " ++ Text.quoted path
  | .scriptNameTooLong path => "[Errno 36] File name too long: " ++ Text.quoted path
  | .noDepth => "no call depth"
  | .noRoom => "no room for so many calls"
  | .absentInspected => "no value to look at"
  | .absentCopied => "no value to copy"
  | .noOperand => "no operand"
  | .operandCount expected actual =>
    "expected " ++ integerText expected ++ " operands, got " ++ integerText actual
  | .noText use => use.message
  | .beyondReals => "no real number so large"
  | .tooManyDigits count => "a numeral of " ++ integerText count ++ " digits"
  | .undecodableInput => "input that is no text"
  | .surrogate code => "a reference to the surrogate " ++ integerText code

/-- Why a run stopped before its end. -/
inductive Halt where
  | fault (cause : Fault) (span : Option Span)
  | crash (cause : Crash)
  deriving DecidableEq, Repr

namespace Halt

/-- The wording. -/
def message : Halt → String
  | .fault cause _ => cause.message
  | .crash cause => cause.message

/-- The fault placed at an instruction, unless it has a place already. -/
def locate (span : Option Span) : Halt → Halt
  | .fault cause none => .fault cause span
  | h => h

@[simp] theorem locate_none (h : Halt) : locate none h = h := by
  unfold locate
  split <;> rfl

@[simp] theorem locate_fault_some (span : Option Span) (cause : Fault) (s : Span) :
    locate span (.fault cause (some s)) = .fault cause (some s) := rfl

@[simp] theorem locate_crash (span : Option Span) (cause : Crash) :
    locate span (.crash cause) = .crash cause := rfl

/-- A refused operation, not yet placed. -/
def refused (name : String) (reason : Reason) : Halt := .fault (.operation name reason) none

end Halt

end TagScript
