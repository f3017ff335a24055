import LockingScript.Number

/-!
# Pushes

Data is pushed by an opcode that stands for it if there is one, else directly, else behind the
smallest length prefix. A single zero byte is the exception, it is pushed as the empty string is.

Numbers are pushed by the opcodes for -1 to 16 or as data. They are read back only from pushes
that use the smallest opcode.
-/

namespace LockingScript

namespace Opcode

/-- The opcode that stands for the data by itself. -/
def forData? : Bytes → Option Opcode
  | [] => some zero
  | [b] =>
      if b ≤ 16 then some (ofSmallInt b.toNat)
      else if b = 0x81 then some negativeOne
      else none
  | _ => none

/-- The opcode that stands for the number by itself. -/
def forInt? (n : Int64) : Option Opcode :=
  if n = -1 then some negativeOne
  else if 0 ≤ n ∧ n ≤ 16 then some (ofSmallInt n.toInt.toNat)
  else none

end Opcode

/-- The opcode and the length in front of so many bytes of data. -/
def pushPrefix (length : Nat) : Bytes :=
  if length ≤ 75 then [UInt8.ofNat length]
  else if length ≤ 0xff then [Opcode.pushData1.byte, UInt8.ofNat length]
  else if length ≤ 0xffff then Opcode.pushData2.byte :: LittleEndian.encode 2 length
  else Opcode.pushData4.byte :: LittleEndian.encode 4 length

namespace Token

/-- Whether a push has no shorter form. Single bytes up to 16 have one, and so has data that fits
a smaller length prefix. -/
def isCanonical (t : Token) : Bool :=
  match t.opcode.lengthRule with
  | .fixed _ =>
      match t.data with
      | [b] => 16 < b
      | _ => true
  | .prefixed 1 => 75 < t.data.length
  | .prefixed 2 => 0xff < t.data.length
  | .prefixed _ => 0xffff < t.data.length

/-- The number that a token pushes, if it is written in at most `limit` bytes and both the push
and the number are as short as they can be. -/
def integer? (limit : Nat) (t : Token) : Option Int64 :=
  match t.opcode.smallInt? with
  | some n => some (Int64.ofNat n)
  | none =>
      if t.opcode.IsPush ∧ t.isCanonical then (Number.decode limit t.data).toOption else none

end Token

end LockingScript
