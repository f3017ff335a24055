import LockingScript.Bytes.Basic

/-!
# Little-endian numbers

Numbers of a fixed width, least significant byte first. Writing drops what does not fit the
width, and reading takes every byte it is given, so the two are inverse on numbers below
`256 ^ width` and on byte strings of that width.
-/

namespace LockingScript.LittleEndian

/-- The low `width` bytes of a number. -/
def encode : Nat → Nat → Bytes
  | 0, _ => []
  | width + 1, n => UInt8.ofNat n :: encode width (n / 256)

/-- The number that the bytes spell. -/
def decode : Bytes → Nat
  | [] => 0
  | b :: rest => b.toNat + 256 * decode rest

@[simp] theorem length_encode (width n : Nat) : (encode width n).length = width := by
  induction width generalizing n with
  | zero => rfl
  | succ width ih => simp [encode, ih]

/-- The first byte is the remainder modulo 256. -/
theorem ofNat_toNat_add_mul (x : UInt8) (k : Nat) : UInt8.ofNat (x.toNat + 256 * k) = x := by
  have bound := x.toNat_lt
  apply UInt8.toNat_inj.mp
  rw [UInt8.toNat_ofNat']
  omega

@[simp] theorem encode_decode (b : Bytes) : encode b.length (decode b) = b := by
  induction b with
  | nil => rfl
  | cons x rest ih =>
    have high : (x.toNat + 256 * decode rest) / 256 = decode rest := by
      have := x.toNat_lt
      omega
    rw [List.length_cons, decode, encode, ofNat_toNat_add_mul, high, ih]

end LockingScript.LittleEndian
