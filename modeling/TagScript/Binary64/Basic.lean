set_option autoImplicit false

/-! # Binary64 numbers

The numbers of the IEEE 754 format with 53 significant bits, with one NaN. The magnitudes of the
format, from zero over the subnormal and normal ones to infinity, are numbered in ascending order
from zero; this number is the *rank* of a magnitude. So a number other than NaN is a sign and a
rank, the order of numbers is the order of ranks, and the neighbours of a number are the ranks
beside it.

Every operation is the exact operation on rational numbers followed by one rounding to the nearest
rank, a tie going to the even one. Magnitudes are measured in *units* of `2 ^ (-1074)`, the
smallest positive magnitude, so that each finite one is a natural number of units. -/

namespace TagScript

namespace Binary64

/-- The rank of infinity: the number of finite magnitudes. -/
def infiniteRank : Nat := 2047 * Nat.pow 2 52

end Binary64

/-- A binary64 number. -/
inductive Binary64 where
  | nan
  | signed (negative : Bool) (rank : Fin (Binary64.infiniteRank + 1))
  deriving DecidableEq, Repr

namespace Binary64

/-! ## Ranks and units -/

/-- The number of units of `2 ^ (-1074)` in one unit: `unitBits` bits stand after the point. -/
def unitBits : Nat := 1074

/-- How many times the spacing of ranks has doubled below `rank`. -/
def binade (rank : Nat) : Nat := rank / Nat.pow 2 52 - 1

/-- The magnitude of a rank, in units. Infinity counts as the magnitude that would follow the
    largest finite one. -/
def units (rank : Nat) : Nat :=
  (rank - binade rank * Nat.pow 2 52) * Nat.pow 2 (binade rank)

/-- The integer nearest to `num / den`, a tie going to the even one. -/
def nearestEven (num den : Nat) : Nat :=
  let quotient := num / den
  let twice := 2 * (num % den)
  if twice < den then quotient
  else if den < twice then quotient + 1
  else quotient + quotient % 2

/-- The rank nearest to `num / den` units, a tie going to the even rank; a magnitude from half a
    spacing above the largest finite one on is infinite. -/
def nearestRank (num den : Nat) : Nat :=
  let doublings := (num / den).log2 - 52
  min infiniteRank (doublings * Nat.pow 2 52 + nearestEven num (den * Nat.pow 2 doublings))

theorem nearestRank_le (num den : Nat) : nearestRank num den ≤ infiniteRank :=
  Nat.min_le_left ..

/-- The number nearest to a magnitude of `num / den` units with the given sign. -/
def ofRatio (negative : Bool) (num den : Nat) : Binary64 :=
  .signed negative ⟨nearestRank num den, Nat.lt_succ_of_le (nearestRank_le num den)⟩

/-- Zero with the given sign. -/
def zero (negative : Bool) : Binary64 := .signed negative ⟨0, Nat.succ_pos _⟩

/-- Infinity with the given sign. -/
def infinity (negative : Bool) : Binary64 := .signed negative ⟨infiniteRank, Nat.lt_succ_self _⟩

/-- Whether a number is one of the infinities. -/
def isInfinite : Binary64 → Bool
  | .nan => false
  | .signed _ rank => rank.val == infiniteRank

/-- The number nearest to an integer. -/
def ofInt (n : Int) : Binary64 :=
  ofRatio (n < 0) (n.natAbs * Nat.pow 2 unitBits) 1

/-- One. -/
def one : Binary64 := ofInt 1

/-! ## Arithmetic -/

/-- The number with the other sign. -/
def neg : Binary64 → Binary64
  | .nan => .nan
  | .signed negative rank => .signed (!negative) rank

/-- The signed magnitude in units of a finite number. -/
def signedUnits (negative : Bool) (rank : Nat) : Int :=
  if negative then -(units rank : Int) else units rank

/-- The sum. Opposite infinities have none; an exact zero is negative only if both summands are. -/
def add : Binary64 → Binary64 → Binary64
  | .signed a r, .signed b s =>
    if r.val = infiniteRank then
      if s.val = infiniteRank ∧ a ≠ b then .nan else .signed a r
    else if s.val = infiniteRank then .signed b s
    else
      let total := signedUnits a r + signedUnits b s
      if total = 0 then zero (a && b) else ofRatio (total < 0) total.natAbs 1
  | _, _ => .nan

/-- The difference. -/
def sub (x y : Binary64) : Binary64 := add x (neg y)

/-- The product. Zero times infinity has none. -/
def mul : Binary64 → Binary64 → Binary64
  | .signed a r, .signed b s =>
    if r.val = infiniteRank ∨ s.val = infiniteRank then
      if r.val = 0 ∨ s.val = 0 then .nan else infinity (a != b)
    else ofRatio (a != b) (units r * units s) (Nat.pow 2 unitBits)
  | _, _ => .nan

/-- The reciprocal; that of a zero is the infinity of its sign. -/
def inv : Binary64 → Binary64
  | .signed a r =>
    if r.val = 0 then infinity a
    else if r.val = infiniteRank then zero a
    else ofRatio a (Nat.pow 2 (2 * unitBits)) (units r)
  | .nan => .nan

/-! ## Order, truth and truncation -/

/-- Whether the number is a zero of either sign. -/
def isZero : Binary64 → Bool
  | .nan => false
  | .signed _ rank => rank.val == 0

/-- The rank with the sign of the number: the key by which numbers are ordered. -/
def signedRank (negative : Bool) (rank : Nat) : Int :=
  if negative then -(rank : Int) else rank

/-- The order of two numbers, none if one of them is NaN. Both zeros are equal. -/
def compare? : Binary64 → Binary64 → Option Ordering
  | .signed a r, .signed b s => some (compare (signedRank a r) (signedRank b s))
  | _, _ => none

/-- Whether a number is at least an integer, which is not rounded to be compared. -/
def atLeast (x : Binary64) (n : Int) : Bool :=
  match x with
  | .nan => false
  | .signed negative rank =>
    if rank.val = infiniteRank then !negative
    else n * Nat.pow 2 unitBits ≤ signedUnits negative rank

/-- Whether a number is at most an integer, which is not rounded to be compared. -/
def atMost (x : Binary64) (n : Int) : Bool :=
  match x with
  | .nan => false
  | .signed negative rank =>
    if rank.val = infiniteRank then negative
    else signedUnits negative rank ≤ n * Nat.pow 2 unitBits

/-- The integer part of a finite number; NaN and the infinities have none, for which zero stands. -/
def truncate : Binary64 → Int
  | .nan => 0
  | .signed negative rank =>
    if rank.val = infiniteRank then 0
    else
      let whole := units rank / Nat.pow 2 unitBits
      if negative then -(whole : Int) else whole

/-! ## The interchange format -/

/-- The 64-bit word of a number. -/
def toBits : Binary64 → Nat
  | .nan => 0x7ff8000000000000
  | .signed negative rank => (if negative then Nat.pow 2 63 else 0) + rank.val

/-- The number of a 64-bit word; every word of a NaN is read as the one NaN. -/
def ofBits (word : Nat) : Binary64 :=
  let rank := word % Nat.pow 2 63
  if h : rank ≤ infiniteRank then
    .signed (decide (Nat.pow 2 63 ≤ word % Nat.pow 2 64)) ⟨rank, Nat.lt_succ_of_le h⟩
  else .nan

end Binary64

end TagScript
