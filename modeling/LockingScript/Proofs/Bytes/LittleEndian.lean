import LockingScript.Bytes.LittleEndian
import Mathlib.Algebra.Ring.Nat

/-!
# The range of little-endian numbers

Strings of `width` bytes are in bijection with the numbers below `256 ^ width`. Longer strings are
numbers to that base.
-/

namespace LockingScript.LittleEndian

theorem decode_lt (b : Bytes) : decode b < 256 ^ b.length := by
  induction b with
  | nil => simp [decode]
  | cons x rest ih =>
    have := x.toNat_lt
    simp only [decode, List.length_cons, Nat.pow_succ]
    omega

theorem decode_encode (width n : Nat) : decode (encode width n) = n % 256 ^ width := by
  induction width generalizing n with
  | zero => simp [encode, decode, Nat.mod_one]
  | succ width ih =>
    have low : (UInt8.ofNat n).toNat = n % 256 := UInt8.toNat_ofNat'
    rw [encode, decode, ih, low, Nat.pow_succ, Nat.mul_comm (256 ^ width), Nat.mod_mul]

theorem encode_mod (width n : Nat) : encode width (n % 256 ^ width) = encode width n := by
  have written := encode_decode (encode width n)
  rwa [length_encode, decode_encode] at written

theorem encode_eq_iff {width m n : Nat} :
    encode width m = encode width n ↔ m % 256 ^ width = n % 256 ^ width := by
  constructor
  · intro same
    rw [← decode_encode, same, decode_encode]
  · intro same
    rw [← encode_mod, same, encode_mod]

theorem decode_append (a b : Bytes) : decode (a ++ b) = decode a + 256 ^ a.length * decode b := by
  induction a with
  | nil => simp [decode]
  | cons x rest ih =>
    simp only [List.cons_append, decode, ih, List.length_cons, Nat.pow_succ]
    rw [Nat.mul_add, ← Nat.mul_assoc, Nat.mul_comm 256 (256 ^ rest.length), Nat.add_assoc]

end LockingScript.LittleEndian
