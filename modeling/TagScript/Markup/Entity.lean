import TagScript.Fault

set_option autoImplicit false

/-! # Entity references

Attribute values may hold references: `&amp;`, `&lt;`, `&gt;`, `&quot;`, `&apos;`, and the code
point of a character in decimal or, after an x, in hexadecimal digits. Decoding is one pass from
left to right, so a text that comes out of a reference is not decoded again.

Reading a decimal code crashes if it has too many digits. A text has no character for the code point
of a surrogate: what decoding would give is not said, and it ends in a crash of its own. -/

namespace TagScript.Markup.Entity

/-- Why a reference is refused, with the text that the message shows, or how reading it crashes. -/
inductive Fault where
  | malformed (text : String)
  | invalidCharacter (body : String)
  | unknown (body : String)
  | crash (cause : Crash)
  deriving DecidableEq, Repr

/-- The wording of a fault. -/
def Fault.message : Fault → String
  | .malformed text => "malformed entity reference '" ++ text ++ "'"
  | .invalidCharacter body => "invalid character reference '&" ++ body ++ ";'"
  | .unknown body => "unknown entity '&" ++ body ++ ";'"
  | .crash cause => cause.message

/-- The named references. -/
def named : List (String × Char) :=
  [("amp", '&'), ("lt", '<'), ("gt", '>'), ("quot", '\x22'), ("apos", '\x27')]

/-- A hexadecimal digit of either case. -/
def isHexDigit (c : Char) : Bool :=
  c.isDigit || ('a' ≤ c && c ≤ 'f') || ('A' ≤ c && c ≤ 'F')

/-- The value of a hexadecimal digit. -/
def hexValue (c : Char) : Nat :=
  if c.isDigit then c.toNat - 48 else c.toLower.toNat - 87

/-- The value of a run of digits to a base. -/
def digitsValue (base : Nat) (value : Char → Nat) (digits : List Char) : Nat :=
  digits.foldl (fun n c => n * base + value c) 0

/-- The longest text at the start of `s` that can be the body of a reference; empty if there is
    none. -/
def body (s : List Char) : List Char :=
  match s with
  | '#' :: rest =>
    if (rest.takeWhile Char.isDigit).isEmpty then
      match rest with
      | x :: rest =>
        if (x = 'x' ∨ x = 'X') ∧ !(rest.takeWhile isHexDigit).isEmpty then
          '#' :: x :: rest.takeWhile isHexDigit
        else []
      | [] => []
    else '#' :: rest.takeWhile Char.isDigit
  | _ => s.takeWhile Char.isAlpha

/-- The greatest code point. -/
def maxCode : Nat := 0x10FFFF

/-- The number that the digits of a reference denote: after an x to the base sixteen, else to the
    base ten. -/
def readCode (digits : List Char) : Except Fault Nat :=
  match digits with
  | [] => .ok 0
  | x :: rest =>
    if x = 'x' ∨ x = 'X' then .ok (digitsValue 16 hexValue rest)
    else if Text.digitLimit < digits.length then .error (.crash (.tooManyDigits digits.length))
    else .ok (digitsValue 10 hexValue digits)

/-- The character with the given code point, to which a reference has the given body. -/
def character (body : List Char) (code : Nat) : Except Fault Char :=
  if ¬ (0 < code ∧ code ≤ maxCode) then .error (.invalidCharacter (String.ofList body))
  else if code.isValidChar then .ok (Char.ofNat code)
  else .error (.crash (.surrogate code))

/-- The character that the body of a reference stands for. -/
def resolve (body : List Char) : Except Fault Char :=
  match body with
  | '#' :: digits => readCode digits >>= character body
  | _ =>
    match named.lookup (String.ofList body) with
    | some c => .ok c
    | none => .error (.unknown (String.ofList body))

/-- The reference after an ampersand: its character and the number of characters after the
    ampersand that it takes. -/
def reference (s : List Char) : Except Fault (Char × Nat) :=
  let b := body s
  if (s.drop b.length).head? = some ';' then
    if b.isEmpty then .error (.malformed "&;")
    else (resolve b).map (·, b.length + 1)
  else .error (.malformed (String.ofList ('&' :: b)))

/-- The text of a raw value of which the first `skip` characters have been dealt with. -/
def decodeFrom : (skip : Nat) → List Char → Except Fault (List Char)
  | _, [] => .ok []
  | skip + 1, _ :: rest => decodeFrom skip rest
  | 0, c :: rest =>
    if c = '&' then
      match reference rest with
      | .error fault => .error fault
      | .ok (decoded, taken) => (decodeFrom taken rest).map (decoded :: ·)
    else (decodeFrom 0 rest).map (c :: ·)

/-- The text of a raw attribute value. -/
def decode (raw : List Char) : Except Fault (List Char) :=
  decodeFrom 0 raw

/-- Skipping is dropping. -/
theorem decodeFrom_eq_drop (skip : Nat) (s : List Char) :
    decodeFrom skip s = decode (s.drop skip) := by
  induction skip generalizing s with
  | zero => rfl
  | succ skip ih =>
      cases s with
      | nil => rfl
      | cons c rest => simpa [decodeFrom] using ih rest

end TagScript.Markup.Entity
