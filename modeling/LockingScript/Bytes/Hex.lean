import LockingScript.Bytes.Basic
import LockingScript.Text.Quoted

/-!
# Hexadecimal text

Bytes are written as two lower-case digits each, high half first. Reading accepts either case
and says where the first foreign byte stands. Positions count the bytes of the text in UTF-8.
-/

namespace LockingScript

/-- Why a text is not hexadecimal. -/
inductive HexError where
  | oddLength
  | notDigit (code : UInt8) (position : Nat)
deriving DecidableEq, Repr

def HexError.message : HexError → String
  | .oddLength => "Odd number of digits"
  | .notDigit code position =>
      "Invalid character " ++ Text.quoted code ++ " at position " ++ toString position

namespace Hex

/-- The digit for a number below 16. -/
def digit (n : UInt8) : Char := Char.ofNat (if n < 10 then 0x30 + n.toNat else 0x57 + n.toNat)

def digits (b : UInt8) : List Char := [digit (b / 16), digit (b % 16)]

def write (b : Bytes) : List Char := b.flatMap digits

def encode (b : Bytes) : String := String.ofList (write b)

@[simp] theorem write_nil : write [] = [] := rfl

@[simp] theorem write_cons (b : UInt8) (rest : Bytes) :
    write (b :: rest) = digit (b / 16) :: digit (b % 16) :: write rest := rfl

@[simp] theorem write_append (a b : Bytes) : write (a ++ b) = write a ++ write b :=
  List.flatMap_append

@[simp] theorem toList_encode (b : Bytes) : (encode b).toList = write b := String.toList_ofList

/-- The number that a digit stands for, given the code of its character. -/
def value? (code : UInt8) : Option UInt8 :=
  if 0x30 ≤ code ∧ code ≤ 0x39 then some (code - 0x30)
  else if 0x61 ≤ code ∧ code ≤ 0x66 then some (code - 0x57)
  else if 0x41 ≤ code ∧ code ≤ 0x46 then some (code - 0x37)
  else none

def valueAt (position : Nat) (code : UInt8) : Except HexError UInt8 :=
  match value? code with
  | some n => .ok n
  | none => .error (.notDigit code position)

/-- Reads pairs of digits, the first of which stands at `position`. -/
def readPairs (position : Nat) : Bytes → Except HexError Bytes
  | high :: low :: rest => do
      let h ← valueAt position high
      let l ← valueAt (position + 1) low
      let tail ← readPairs (position + 2) rest
      return (16 * h + l) :: tail
  | [_] => .error .oddLength
  | [] => .ok []

/-- An odd number of digits is reported before any foreign byte. -/
def read (text : Bytes) : Except HexError Bytes :=
  if text.length % 2 = 1 then .error .oddLength else readPairs 0 text

def decode (text : List Char) : Except HexError Bytes :=
  read (text.flatMap String.utf8EncodeChar)

end Hex

end LockingScript
