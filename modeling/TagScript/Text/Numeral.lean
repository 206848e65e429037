set_option autoImplicit false

/-! # Integer numerals

An integer numeral is an optional sign and at least one ASCII digit; leading zeros are allowed.
Whoever reads numerals has to stop at a number of digits, leading zeros included. -/

namespace TagScript.Text

/-- The sign of a numeral, and what follows it. -/
def splitSign : List Char → Bool × List Char
  | '-' :: rest => (true, rest)
  | '+' :: rest => (false, rest)
  | s => (false, s)

/-- The most digits that a numeral to the base ten may have to be read. -/
def digitLimit : Nat := 4300

/-- The number of characters after the sign of a numeral. -/
def digitCount (s : List Char) : Nat := (splitSign s).2.length

/-- The value of a run of decimal digits. -/
def digitsValue (s : List Char) : Nat := Nat.ofDigitChars 10 s 0

/-- The decimal digits of a number. -/
def digitChars (n : Nat) : List Char := Nat.toDigits 10 n

/-- Digits are read as the number they are written for. -/
@[simp] theorem digitsValue_digitChars (n : Nat) : digitsValue (digitChars n) = n :=
  Nat.ofDigitChars_toDigits (by decide) (by decide)

/-- A number with a sign. -/
def withSign (negative : Bool) (n : Nat) : Int := if negative then -(n : Int) else n

/-- The integer that a numeral denotes. -/
def readInteger? (s : List Char) : Option Int :=
  let (negative, digits) := splitSign s
  if digits ≠ [] ∧ digits.all Char.isDigit then some (withSign negative (digitsValue digits))
  else none

/-- The numeral of an integer: a minus sign if it is negative, and no superfluous zero. -/
def integerChars (n : Int) : List Char :=
  if n < 0 then '-' :: digitChars n.natAbs else digitChars n.natAbs

end TagScript.Text
