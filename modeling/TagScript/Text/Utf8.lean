set_option autoImplicit false

/-! # UTF-8

Texts are kept in files as UTF-8. Reading is strict: overlong forms, surrogates and code points
above the last one are refused, and a refusal says where the first bad sequence stands, how many
bytes it has and what is wrong with it. -/

namespace TagScript.Utf8

/-! ## Writing -/

/-- The bytes of one character. -/
def encodeChar (c : Char) : List UInt8 :=
  let n := c.toNat
  if n < 0x80 then [.ofNat n]
  else if n < 0x800 then [.ofNat (0xC0 + n / 64), .ofNat (0x80 + n % 64)]
  else if n < 0x10000 then
    [.ofNat (0xE0 + n / 4096), .ofNat (0x80 + n / 64 % 64), .ofNat (0x80 + n % 64)]
  else
    [.ofNat (0xF0 + n / 262144), .ofNat (0x80 + n / 4096 % 64), .ofNat (0x80 + n / 64 % 64),
      .ofNat (0x80 + n % 64)]

/-- The bytes of a text. -/
def encode (s : List Char) : List UInt8 :=
  s.flatMap encodeChar

/-! ## Reading -/

/-- What is wrong with a sequence of bytes. -/
inductive Defect where
  | invalidStart
  | invalidContinuation
  | unexpectedEnd
  deriving DecidableEq, Repr

/-- The wording of a defect. -/
def Defect.message : Defect → String
  | .invalidStart => "invalid start byte"
  | .invalidContinuation => "invalid continuation byte"
  | .unexpectedEnd => "unexpected end of data"

/-- The first bad sequence of a file: its first byte, the position of that byte, the number of
    bytes of the sequence and the defect. -/
structure Refusal where
  first : UInt8
  position : Nat
  size : Nat
  defect : Defect
  deriving DecidableEq, Repr

/-- Whether a byte continues a sequence. -/
def isContinuation (b : UInt8) : Bool :=
  0x80 ≤ b.toNat && b.toNat ≤ 0xBF

/-- Whether `b` may stand second after the lead byte `lead`; the bounds keep out overlong forms,
    surrogates and code points above the last one. -/
def isSecond (lead b : UInt8) : Bool :=
  isContinuation b
    && !(lead == 0xE0 && b.toNat < 0xA0) && !(lead == 0xED && 0xA0 ≤ b.toNat)
    && !(lead == 0xF0 && b.toNat < 0x90) && !(lead == 0xF4 && 0x90 ≤ b.toNat)

/-- The six bits that a continuation byte carries. -/
def payload (b : UInt8) : Nat := b.toNat - 0x80

/-- The text of a sequence of bytes that starts at `position` of its file. -/
def decodeFrom (position : Nat) : List UInt8 → Except Refusal (List Char)
  | [] => .ok []
  | a :: rest =>
    let n := a.toNat
    if n < 0x80 then
      (decodeFrom (position + 1) rest).map (Char.ofNat n :: ·)
    else if n < 0xC2 ∨ 0xF4 < n then
      .error ⟨a, position, 1, .invalidStart⟩
    else match rest with
      | [] => .error ⟨a, position, 1, .unexpectedEnd⟩
      | b :: rest =>
        if !isSecond a b then .error ⟨a, position, 1, .invalidContinuation⟩
        else if n < 0xE0 then
          (decodeFrom (position + 2) rest).map (Char.ofNat ((n - 0xC0) * 64 + payload b) :: ·)
        else match rest with
          | [] => .error ⟨a, position, 2, .unexpectedEnd⟩
          | c :: rest =>
            if !isContinuation c then .error ⟨a, position, 2, .invalidContinuation⟩
            else if n < 0xF0 then
              (decodeFrom (position + 3) rest).map
                (Char.ofNat ((n - 0xE0) * 4096 + payload b * 64 + payload c) :: ·)
            else match rest with
              | [] => .error ⟨a, position, 3, .unexpectedEnd⟩
              | d :: rest =>
                if !isContinuation d then .error ⟨a, position, 3, .invalidContinuation⟩
                else
                  (decodeFrom (position + 4) rest).map
                    (Char.ofNat ((n - 0xF0) * 262144 + payload b * 4096 + payload c * 64
                      + payload d) :: ·)

/-- The text of a file. -/
def decode (bytes : List UInt8) : Except Refusal (List Char) :=
  decodeFrom 0 bytes

end TagScript.Utf8
