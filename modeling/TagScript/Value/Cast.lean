import TagScript.Value.Arithmetic

set_option autoImplicit false

/-! # Literals and casts -/

namespace TagScript.Value

/-- The integer that a text denotes. A numeral of too many digits crashes, whatever its integer. -/
def parseInteger (op : String) (s : String) : Except Halt Value :=
  match Text.readInteger? s.toList with
  | some n =>
    if Text.digitLimit < Text.digitCount s.toList then
      .error (.crash (.tooManyDigits (Text.digitCount s.toList)))
    else integer op n
  | none => .error (.refused op (.notAnInteger s))

/-- The real number that a text denotes. -/
def parseReal (op : String) (s : String) : Except Halt Value :=
  match Binary64.read s.toList with
  | .number x => .ok (.real x)
  | .notNumeral => .error (.refused op (.notAReal s))
  | .lookalike => .error (.crash (.unconvertible s))

/-- A real number as an integer of 64 bits: zero for NaN, a bound for a number at or beyond it, and
    any other number without its fraction. -/
def truncateReal (x : Binary64) : Int :=
  if x = .nan then 0
  else if x.atLeast maxInteger then maxInteger
  else if x.atMost minInteger then minInteger
  else x.truncate

/-- The value as an integer: a number loses its fraction and is kept within 64 bits, a text is
    read. -/
def castInteger (op : String) : Value → Except Halt Value
  | .int n => .ok (.int n)
  | .real x => integer op (truncateReal x)
  | .text s => parseInteger op s
  | .missingText => .error (.crash (.noText .numeral))
  | v => .error (.refused op (.noConversion v.typeName "Integer"))

/-- The value as a real number, an integer being rounded to the nearest. -/
def castReal (op : String) : Value → Except Halt Value
  | .int n => (realOfInt n).map .real
  | .real x => .ok (.real x)
  | .text s => parseReal op s
  | .missingText => .error (.crash (.noText .numeral))
  | v => .error (.refused op (.noConversion v.typeName "Real"))

/-- The value as a text. -/
def castText (op : String) (v : Value) : Except Halt Value :=
  match v.wording? with
  | some (.given s) => .ok (.text s)
  | some .missing => .ok .missingText
  | none => .error (.refused op (.noConversion v.typeName "Text"))

end TagScript.Value
