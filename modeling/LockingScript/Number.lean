import LockingScript.Error

/-!
# Script numbers

A number is written as the bytes of its magnitude, least significant first, with its sign in the
top bit of the last byte. If the magnitude takes that bit, a byte with nothing but the sign
follows. Zero is the empty string. An encoding is minimal if it is the one that writing produces.
-/

namespace LockingScript.Number

/-- The bytes of a number up to the last one that is not zero. -/
def magnitude (n : Nat) : Bytes :=
  if n = 0 then [] else UInt8.ofNat n :: magnitude (n / 256)

/-- Puts the sign into the top bit of the last byte, or into a byte of its own if that bit is
taken. -/
def withSign (negative : Bool) : Bytes → Bytes
  | [] => []
  | [b] =>
      let sign : UInt8 := if negative then 0x80 else 0x00
      if b &&& 0x80 = 0 then [b ||| sign] else [b, sign]
  | b :: c :: rest => b :: withSign negative (c :: rest)

def encode (n : Int) : Bytes := withSign (n < 0) (magnitude n.natAbs)

def isNegative (b : Bytes) : Bool :=
  match b.getLast? with
  | some last => last &&& 0x80 != 0
  | none => false

/-- Clears the sign of the last byte. -/
def withoutSign : Bytes → Bytes
  | [] => []
  | [b] => [b &&& 0x7f]
  | b :: c :: rest => b :: withoutSign (c :: rest)

/-- The number that the bytes stand for. Only the first eight bytes count towards the magnitude,
and the result is taken modulo `2 ^ 64`. -/
def value (b : Bytes) : Int64 :=
  let size : Int := LittleEndian.decode ((withoutSign b).take 8)
  Int64.ofInt (if isNegative b then -size else size)

/-- The last byte holds more than the sign, or keeps the sign apart from the byte before it. -/
def IsMinimal : Bytes → Prop
  | [] => True
  | [b] => b &&& 0x7f ≠ 0
  | [b, c] => c &&& 0x7f ≠ 0 ∨ b &&& 0x80 ≠ 0
  | _ :: b :: c :: rest => IsMinimal (b :: c :: rest)

instance decidableIsMinimal : (b : Bytes) → Decidable (IsMinimal b)
  | [] => isTrue trivial
  | [b] => inferInstanceAs (Decidable (b &&& 0x7f ≠ 0))
  | [b, c] => inferInstanceAs (Decidable (c &&& 0x7f ≠ 0 ∨ b &&& 0x80 ≠ 0))
  | _ :: b :: c :: rest => decidableIsMinimal (b :: c :: rest)

def checkMinimal (b : Bytes) : Except Error Unit :=
  if IsMinimal b then .ok () else .error (.nonMinimalNumber b)

/-- Reads a number of at most `limit` bytes that need not be minimal. -/
def decodeLoose (limit : Nat) (b : Bytes) : Except Error Int64 :=
  if limit < b.length then .error (.numberTooLong b.length limit) else .ok (value b)

/-- Reads a minimal number of at most `limit` bytes. Its length is checked first. -/
def decode (limit : Nat) (b : Bytes) : Except Error Int64 := do
  let n ← decodeLoose limit b
  checkMinimal b
  return n

/-- The nearest number of 32 bits. -/
def clamp32 (n : Int64) : Int32 :=
  Int32.ofInt (max Int32.minValue.toInt (min Int32.maxValue.toInt n.toInt))

end LockingScript.Number
