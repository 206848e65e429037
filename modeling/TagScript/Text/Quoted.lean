import TagScript.Text.Printable

set_option autoImplicit false

/-! # Quoted texts

The one-line form in which trees, instructions and messages show a text. The text stands between
single quotes, or between double quotes if it holds a single quote and no double one. A backslash,
the quote in use and every character that is not printable are written as escapes. -/

namespace TagScript.Text

/-- The lower-case hexadecimal digit of a number below sixteen. -/
def hexDigit (n : Nat) : Char :=
  if n < 10 then Char.ofNat (48 + n) else Char.ofNat (87 + n)

/-- The last `width` hexadecimal digits of a number. -/
def hexDigits : (width : Nat) → Nat → List Char
  | 0, _ => []
  | width + 1, n => hexDigits width (n / 16) ++ [hexDigit (n % 16)]

/-- The form of one character between two quotes `quote`. -/
def escapeChar (quote c : Char) : List Char :=
  if c = '\\' ∨ c = quote then ['\\', c]
  else if c = '\n' then ['\\', 'n']
  else if c = '\r' then ['\\', 'r']
  else if c = '\t' then ['\\', 't']
  else if isPrintable c then [c]
  else if c.toNat < 0x100 then '\\' :: 'x' :: hexDigits 2 c.toNat
  else if c.toNat < 0x10000 then '\\' :: 'u' :: hexDigits 4 c.toNat
  else '\\' :: 'U' :: hexDigits 8 c.toNat

/-- The single quote. -/
def singleQuote : Char := '\x27'

/-- The double quote. -/
def doubleQuote : Char := '\x22'

/-- The quote that a text is written with. -/
def quoteFor (s : List Char) : Char :=
  if s.contains singleQuote && !s.contains doubleQuote then doubleQuote else singleQuote

/-- The quoted form of a text. -/
def quotedChars (s : List Char) : List Char :=
  quoteFor s :: (s.flatMap (escapeChar (quoteFor s)) ++ [quoteFor s])

/-- The quoted form of a text. -/
def quoted (s : String) : String :=
  String.ofList (quotedChars s.toList)

end TagScript.Text
