import TagScript.Binary64.Basic
import TagScript.Text.Blank
import TagScript.Text.Numeral

set_option autoImplicit false

/-! # Decimal text of binary64 numbers

A finite number is written with the fewest digits that read back as the number, the nearest such
decimal being taken and of two equally near ones the even one. The digits are laid out
positionally, without an exponent, and without zeros at the end of the fraction.

Reading is correctly rounded: a numeral denotes the number nearest to its exact value. -/

namespace TagScript.Binary64

/-! ## Decimals -/

/-- The decimal `digits * 10 ^ exponent`. -/
structure Decimal where
  digits : Nat
  exponent : Int
  deriving DecidableEq, Repr

/-- The rank nearest to a decimal. -/
def Decimal.rank (d : Decimal) : Nat :=
  if 0 ≤ d.exponent then
    nearestRank (d.digits * Nat.pow 10 d.exponent.toNat * Nat.pow 2 unitBits) 1
  else nearestRank (d.digits * Nat.pow 2 unitBits) (Nat.pow 10 (-d.exponent).toNat)

/-- A decimal whose exponent stays in the range that can matter. With `width` digits, an exponent
    above 310 makes a magnitude other than zero infinite, and one below `-(width + 330)` makes it
    zero, so a numeral with a huge exponent is read without computing a huge power. -/
def Decimal.clamp (width : Nat) (d : Decimal) : Decimal :=
  ⟨d.digits, max (-(width + 330 : Int)) (min d.exponent 310)⟩

/-! ## The fewest digits -/

/-- The floor of the magnitude of a rank on the grid of multiples of `10 ^ exponent`, twice what
    the magnitude has above it, and twice the spacing of the grid, the last two in one scale. -/
def gridFloor (rank : Nat) (exponent : Int) : Nat × Nat × Nat :=
  let num := units rank * Nat.pow 10 (-exponent).toNat
  let den := Nat.pow 2 unitBits * Nat.pow 10 exponent.toNat
  (num / den, 2 * (num % den), den)

/-- The nearest multiple of `10 ^ exponent` that reads back as the rank, if there is one. Only the
    two multiples beside the magnitude need a look. -/
def gridPoint? (rank : Nat) (exponent : Int) : Option Decimal :=
  let (floor, twice, spacing) := gridFloor rank exponent
  let below : Decimal := ⟨floor, exponent⟩
  let above : Decimal := ⟨floor + 1, exponent⟩
  match decide (below.rank = rank), decide (above.rank = rank) with
  | true, true =>
    some (if twice < spacing ∨ (twice = spacing ∧ floor % 2 = 0) then below else above)
  | true, false => some below
  | false, true => some above
  | false, false => none

/-- The decimal that equals the magnitude of a rank. -/
def exactDecimal (rank : Nat) : Decimal :=
  ⟨units rank * Nat.pow 5 unitBits, -(unitBits : Int)⟩

/-- The decimal on the coarsest grid that has one, searched from the grid of
    `10 ^ (grids - 1074)` down to that of `10 ^ (-1074)`, on which every magnitude lies. -/
def shortestFrom (rank : Nat) : (grids : Nat) → Decimal
  | 0 => exactDecimal rank
  | grids + 1 =>
    match gridPoint? rank (grids + 1 - unitBits) with
    | some d => d
    | none => shortestFrom rank grids

/-- The number of grids to search: the first one is coarser than the magnitude. -/
def gridCount (rank : Nat) : Nat :=
  let bits : Int := (units rank).log2 + 1 - unitBits
  (bits * 30103 / 100000 + 1 + unitBits).toNat

/-- The decimal with the fewest digits that reads back as the rank. -/
def shortest (rank : Nat) : Decimal :=
  shortestFrom rank (gridCount rank)

/-! ## Positional layout -/

/-- A decimal in positional notation: no exponent, no point without a digit after it, no zero at
    the end of the fraction. -/
def Decimal.positional (d : Decimal) : List Char :=
  let digits := Text.digitChars d.digits
  if 0 ≤ d.exponent then
    if d.digits = 0 then ['0'] else digits ++ List.replicate d.exponent.toNat '0'
  else
    let places := (-d.exponent).toNat
    let padded := List.replicate (places + 1 - digits.length) '0' ++ digits
    let whole := padded.take (padded.length - places)
    let fraction := Text.dropTrailing (· == '0') (padded.drop (padded.length - places))
    if fraction.isEmpty then whole else whole ++ '.' :: fraction

/-- The text of a number. -/
def format : Binary64 → List Char
  | .nan => ['N', 'a', 'N']
  | .signed negative rank =>
    let magnitude :=
      if rank.val = infiniteRank then ['i', 'n', 'f']
      else if rank.val = 0 then ['0']
      else (shortest rank).positional
    if negative then '-' :: magnitude else magnitude

/-! ## Reading numerals -/

/-- The outcome of reading a text as a numeral. A *lookalike* is a text that passes for a word only
    because a dotted capital or a dotless small i stands for an i in it. -/
inductive Reading where
  | number (x : Binary64)
  | notNumeral
  | lookalike
  deriving DecidableEq, Repr

/-- An ASCII letter in lower case; the two other forms of the letter i count as i. -/
def foldLetter (c : Char) : Char :=
  if c = 'İ' ∨ c = 'ı' then 'i' else c.toLower

/-- The exponent part of a numeral: nothing, or the letter e, a sign and digits. -/
def readExponent? : List Char → Option Int
  | [] => some 0
  | mark :: rest =>
    let (negative, digits) := Text.splitSign rest
    if (mark = 'e' ∨ mark = 'E') ∧ digits ≠ [] ∧ digits.all Char.isDigit then
      some (Text.withSign negative (Text.digitsValue digits))
    else none

/-- The decimal written by an unsigned numeral, with the number of its digits: digits with a point
    before, among or after them or without one, and an exponent part. -/
def readDecimal? (s : List Char) : Option (Nat × Decimal) :=
  let whole := s.takeWhile Char.isDigit
  let rest := s.dropWhile Char.isDigit
  let (fraction, rest) := match rest with
    | '.' :: rest => (rest.takeWhile Char.isDigit, rest.dropWhile Char.isDigit)
    | rest => ([], rest)
  if whole = [] ∧ fraction = [] then none
  else (readExponent? rest).map fun exponent =>
    (whole.length + fraction.length,
      ⟨Text.digitsValue (whole ++ fraction), exponent - fraction.length⟩)

/-- Whether a text is the given word, in any case and with any form of i. -/
def isWord (word s : List Char) : Bool := s.map foldLetter == word

/-- The number that a text denotes: an optional sign, then `inf`, `infinity`, `nan` in any case, or
    a decimal numeral. -/
def read (s : List Char) : Reading :=
  let (negative, body) := Text.splitSign s
  let infinite :=
    isWord ['i', 'n', 'f'] body || isWord ['i', 'n', 'f', 'i', 'n', 'i', 't', 'y'] body
  if infinite || isWord ['n', 'a', 'n'] body then
    if body.any (fun c => c == 'İ' || c == 'ı') then .lookalike
    else if infinite then .number (infinity negative)
    else .number .nan
  else match readDecimal? body with
    | none => .notNumeral
    | some (width, d) =>
      .number (.signed negative
        (Fin.ofNat (infiniteRank + 1) (d.clamp width).rank))

end TagScript.Binary64
