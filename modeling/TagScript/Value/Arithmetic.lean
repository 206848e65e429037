import TagScript.Value.Format

set_option autoImplicit false

/-! # Arithmetic, logic and comparison

Operators on integers are exact: only the result has to fit in 64 bits, not what is met on the way.
As soon as one operand is a real number, all are. Addition also joins texts. -/

namespace TagScript.Value

/-! ## Operands of one type -/

/-- The integer of a value. -/
def int? : Value → Option Int
  | .int n => some n
  | _ => none

/-- A number as an operand: an integer, or a real number. -/
inductive Number where
  | integer (n : Int)
  | real (x : Binary64)
  deriving DecidableEq, Repr

/-- The number of a value. -/
def number? : Value → Option Number
  | .int n => some (.integer n)
  | .real x => some (.real x)
  | _ => none

/-- The real number nearest to an integer; one that is beyond all real numbers is a crash. -/
def realOfInt (n : Int) : Except Halt Binary64 :=
  if (Binary64.ofInt n).isInfinite then .error (.crash .beyondReals) else .ok (.ofInt n)

/-- The real number of an operand. -/
def Number.toReal : Number → Except Halt Binary64
  | .integer n => realOfInt n
  | .real x => .ok x

/-- The real numbers of several operands. -/
def Number.toReals : List Number → Except Halt (List Binary64)
  | [] => .ok []
  | n :: rest => do
    let x ← n.toReal
    let xs ← toReals rest
    pure (x :: xs)

/-- What all operands have, if they all have it. Operands after the first that lacks it are not
    looked at; an absent one that is looked at is a crash. -/
def allOf {α : Type} (f : Value → Option α) : List Value → Except Halt (Option (List α))
  | [] => .ok (some [])
  | .absent :: _ => .error (.crash .absentInspected)
  | v :: rest =>
    match f v with
    | none => .ok none
    | some a => (allOf f rest).map (Option.map (a :: ·))

/-- The real numbers of the operands, if all are numbers. -/
def reals? (vs : List Value) : Except Halt (Option (List Binary64)) := do
  match ← allOf number? vs with
  | some ns => (Number.toReals ns).map some
  | none => pure none

/-! ## Arithmetic -/

/-- The wordings joined, of which the first stands at `position`; a missing one cannot be joined. -/
def joinFrom (position : Nat) : List Wording → Except Halt String
  | [] => .ok ""
  | .missing :: _ => .error (.crash (.noText (.joining position)))
  | .given s :: rest => (joinFrom (position + 1) rest).map (s ++ ·)

/-- The sum of integers. -/
def sumInt (ns : List Int) : Int := ns.foldl (· + ·) 0

/-- The product of integers. -/
def productInt (ns : List Int) : Int := ns.foldl (· * ·) 1

/-- The sum of numbers, from left to right. -/
def sumReal (xs : List Binary64) : Binary64 := xs.foldl Binary64.add (Binary64.zero false)

/-- The product of numbers, from left to right. -/
def productReal (xs : List Binary64) : Binary64 := xs.foldl Binary64.mul Binary64.one

/-- The sum of integers or of numbers, or the texts joined. -/
def add (vs : List Value) : Except Halt Value := do
  match ← allOf int? vs with
  | some ns => integer "add" (sumInt ns)
  | none =>
    match ← reals? vs with
    | some xs => pure (.real (sumReal xs))
    | none =>
      match ← allOf wording? vs with
      | some texts => (joinFrom 0 texts).map .text
      | none => throw (.unsupported "add" vs)

/-- The first operand less the sum of the others, which has to fit in 64 bits itself. -/
def subtract (vs : List Value) : Except Halt Value :=
  match vs with
  | [] => .error (.refused "subtract" .noOperand)
  | _ :: _ => do
    match ← allOf int? vs with
    | some (n :: ns) =>
      let _ ← integer "subtract" (sumInt ns)
      integer "subtract" (n - sumInt ns)
    | _ =>
      match ← reals? vs with
      | some (x :: xs) => pure (.real (x.sub (sumReal xs)))
      | _ => throw (.unsupported "subtract" vs)

/-- The product of integers or of numbers. -/
def multiply (vs : List Value) : Except Halt Value := do
  match ← allOf int? vs with
  | some ns => integer "multiply" (productInt ns)
  | none =>
    match ← reals? vs with
    | some xs => pure (.real (productReal xs))
    | none => throw (.unsupported "multiply" vs)

/-- The first operand times the product of the reciprocals of the others, always a real number. -/
def divide (vs : List Value) : Except Halt Value :=
  match vs with
  | [] => .error (.refused "divide" .noOperand)
  | _ :: _ => do
    match ← reals? vs with
    | some (x :: xs) => pure (.real (x.mul (productReal (xs.map Binary64.inv))))
    | _ => throw (.unsupported "divide" vs)

/-! ## Logic -/

/-- Whether a value counts as true: a number other than zero, a text or list that is not empty, a
    function. -/
def isTruthy (h : Heap) : Value → Except Halt Bool
  | .int n => .ok (n != 0)
  | .real x => .ok (!x.isZero)
  | .text s => .ok (!s.isEmpty)
  | .missingText => .error (.crash (.noText .length))
  | .list id => .ok (h.length id != 0)
  | .closure _ => .ok true
  | .native _ => .ok true
  | .other tag => .error (.refused "truth" (.unknownType tag))
  | .absent => .error (.crash .absentInspected)

/-- Whether all values are true; values after the first false one are not looked at. -/
def allTrue (h : Heap) : List Value → Except Halt Bool
  | [] => .ok true
  | v :: rest =>
    match v.isTruthy h with
    | .ok true => allTrue h rest
    | .ok false => .ok false
    | .error e => .error e

/-- Whether a value is true; values after the first true one are not looked at. -/
def anyTrue (h : Heap) : List Value → Except Halt Bool
  | [] => .ok false
  | v :: rest =>
    match v.isTruthy h with
    | .ok true => .ok true
    | .ok false => anyTrue h rest
    | .error e => .error e

/-- The conjunction. -/
def and (h : Heap) (vs : List Value) : Except Halt Value := (allTrue h vs).map ofBool

/-- The disjunction. -/
def or (h : Heap) (vs : List Value) : Except Halt Value := (anyTrue h vs).map ofBool

/-- The negation. -/
def not (h : Heap) (v : Value) : Except Halt Value := (v.isTruthy h).map fun b => ofBool !b

/-! ## Comparison -/

/-- The order of texts: that of their first differing code points, a text coming after all that it
    starts with. -/
def compareChars : List Char → List Char → Ordering
  | [], [] => .eq
  | [], _ :: _ => .lt
  | _ :: _, [] => .gt
  | a :: as, b :: bs =>
    match Ord.compare a.toNat b.toNat with
    | .eq => compareChars as bs
    | o => o

/-- The order of two real numbers, none of which may be NaN. -/
def compareReals (x y : Binary64) : Except Halt Ordering :=
  match x.compare? y with
  | some o => .ok o
  | none => .error (.refused "compare" .notANumber)

/-- The order of two values: of integers exactly, of numbers, or of texts. -/
def compare (left right : Value) : Except Halt Ordering :=
  match left, right with
  | .absent, _ => .error (.crash .absentInspected)
  | _, .absent => .error (.crash .absentInspected)
  | .int a, .int b => .ok (Ord.compare a b)
  | .text a, .text b => .ok (compareChars a.toList b.toList)
  | .text _, .missingText => .error (.crash (.noText (.comparison true false)))
  | .missingText, .text _ => .error (.crash (.noText (.comparison false true)))
  | .missingText, .missingText => .error (.crash (.noText (.comparison false false)))
  | _, _ =>
    match left.number?, right.number? with
    | some a, some b => do
      let x ← a.toReal
      let y ← b.toReal
      compareReals x y
    | _, _ => .error (.refused "compare" (.incomparable left.typeName right.typeName))

/-- Whether two values are equal. -/
def equal (left right : Value) : Except Halt Value :=
  (left.compare right).map fun o => ofBool (o == .eq)

/-- Whether the left value is greater. -/
def greater (left right : Value) : Except Halt Value :=
  (left.compare right).map fun o => ofBool (o == .gt)

/-- Whether the left value is lower. -/
def lower (left right : Value) : Except Halt Value :=
  (left.compare right).map fun o => ofBool (o == .lt)

end TagScript.Value
