/-!
# Decimal numbers

A number is an optional sign, plus or minus, and then digits of which there is at least one.
Leading zeros are allowed. Only the ASCII digits count.
-/

namespace LockingScript.Text

def digitValue? (c : Char) : Option Nat :=
  if c.isDigit then some (c.toNat - '0'.toNat) else none

/-- Reads digits after a number whose value is `n`. -/
def digitsFrom? (n : Nat) : List Char → Option Nat
  | [] => some n
  | c :: rest =>
      match digitValue? c with
      | some d => digitsFrom? (10 * n + d) rest
      | none => none

def natural? : List Char → Option Nat
  | [] => none
  | c :: rest => digitsFrom? 0 (c :: rest)

def integer? : List Char → Option Int
  | '+' :: rest => (natural? rest).map Int.ofNat
  | '-' :: rest => (natural? rest).map fun n => -Int.ofNat n
  | text => (natural? text).map Int.ofNat

/-- Reads an integer between the two bounds. -/
def integerIn? (low high : Int) (text : List Char) : Option Int :=
  (integer? text).filter fun n => low ≤ n && n ≤ high

/-- Reads an integer that fits 64 bits with sign. -/
def int64? (text : List Char) : Option Int64 :=
  (integerIn? Int64.minValue.toInt Int64.maxValue.toInt text).map Int64.ofInt

/-- Reads an integer that fits 16 bits without sign. -/
def uint16? (text : List Char) : Option UInt16 :=
  (integerIn? 0 0xffff text).map fun n => UInt16.ofNat n.toNat

example : integer? "-007".toList = some (-7) := by decide

example : integer? "+".toList = none := by decide

end LockingScript.Text
