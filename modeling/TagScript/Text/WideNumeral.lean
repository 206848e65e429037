import TagScript.Text.Blank
import TagScript.Text.Numeral

set_option autoImplicit false

/-! # Integers as users write them

A number on the command line may have blanks around it, a sign, decimal digits of any script and
single underscores between digits. -/

namespace TagScript.Text

/-- The zeros of the decimal digits of all scripts; each is followed by the other nine digits. -/
def decimalZeros : List Nat :=
  [0x30, 0x660, 0x6F0, 0x7C0, 0x966, 0x9E6, 0xA66, 0xAE6, 0xB66, 0xBE6, 0xC66, 0xCE6, 0xD66, 0xDE6,
   0xE50, 0xED0, 0xF20, 0x1040, 0x1090, 0x17E0, 0x1810, 0x1946, 0x19D0, 0x1A80, 0x1A90, 0x1B50,
   0x1BB0, 0x1C40, 0x1C50, 0xA620, 0xA8D0, 0xA900, 0xA9D0, 0xA9F0, 0xAA50, 0xABF0, 0xFF10, 0x104A0,
   0x10D30, 0x11066, 0x110F0, 0x11136, 0x111D0, 0x112F0, 0x11450, 0x114D0, 0x11650, 0x116C0,
   0x11730, 0x118E0, 0x11950, 0x11C50, 0x11D50, 0x11DA0, 0x16A60, 0x16AC0, 0x16B50, 0x1D7CE,
   0x1D7D8, 0x1D7E2, 0x1D7EC, 0x1D7F6, 0x1E140, 0x1E2F0, 0x1E950, 0x1FBF0]

/-- The value of a decimal digit of any script. -/
def digitValue? (c : Char) : Option Nat :=
  (decimalZeros.find? fun first => first ≤ c.toNat && c.toNat < first + 10).map (c.toNat - ·)

/-- A blank that may stand around a number: the information separators may not. -/
def isNumberBlank (c : Char) : Bool :=
  isBlank c && !(28 ≤ c.toNat && c.toNat ≤ 31)

/-- The value of digits after the value so far, with single underscores between them;
    `afterDigit` tells whether the character before was a digit. -/
def wideDigits? (value : Nat) (afterDigit : Bool) : List Char → Option Nat
  | [] => if afterDigit then some value else none
  | c :: rest =>
    if c = '_' then
      if afterDigit then wideDigits? value false rest else none
    else match digitValue? c with
      | some d => wideDigits? (value * 10 + d) true rest
      | none => none

/-- The integer that a text denotes, unless it has too many digits. -/
def readWideInteger? (s : List Char) : Option Int :=
  let (negative, digits) :=
    splitSign (dropTrailing isNumberBlank (s.dropWhile isNumberBlank))
  if digitLimit < digits.countP (· ≠ '_') then none
  else (wideDigits? 0 false digits).map (withSign negative)

/-- Whether a text looks like a negative number: a minus sign and digits, or digits around a point
    of which at least one follows it. A line feed may end it. -/
def looksNegative (s : List Char) : Bool :=
  let isDigit (c : Char) : Bool := (digitValue? c).isSome
  match s with
  | '-' :: rest =>
    let body := if rest.getLast? = some '\n' then rest.dropLast else rest
    let tail := body.dropWhile isDigit
    match tail with
    | [] => !body.isEmpty
    | '.' :: fraction => !fraction.isEmpty && fraction.all isDigit
    | _ => false
  | _ => false

end TagScript.Text
