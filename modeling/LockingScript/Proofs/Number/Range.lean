import LockingScript.Proofs.Number.Minimal
import Mathlib.Data.Int.ModEq

/-!
# The range of numbers

Up to eight bytes spell a sign and all other bits of a magnitude, so they are read as the number
that they spell and nothing wraps around. Of more bytes the first eight count, taken modulo
`2 ^ 64`, and the sign is still that of the last byte.
-/

namespace LockingScript.Number

/-- The sign that the top bit of the last byte stands for. -/
def sign (b : Bytes) : Int :=
  match b.getLast? with
  | some last => if 128 ≤ last.toNat then -1 else 1
  | none => 1

theorem and_ne_zero_iff {x : UInt8} : x &&& 0x80 ≠ 0 ↔ 128 ≤ x.toNat := by
  refine ⟨le_toNat_of_and_ne, ?_⟩
  intro top clear
  have whole := rest_or_sign x
  rw [clear, UInt8.or_zero] at whole
  have rest := toNat_and_lt x
  rw [whole] at rest
  omega

theorem sign_eq (b : Bytes) : sign b = if isNegative b then -1 else 1 := by
  rcases List.eq_nil_or_concat b with rfl | ⟨front, last, rfl⟩
  · rfl
  · rw [List.concat_eq_append, isNegative_concat, sign, List.getLast?_concat]
    simp only [bne_iff_ne, and_ne_zero_iff]

/-- Without its sign, the last byte leaves the number of the bytes without the top bit. -/
theorem decode_withoutSign (b : Bytes) :
    LittleEndian.decode (withoutSign b) = LittleEndian.decode b % 2 ^ (8 * b.length - 1) := by
  rcases List.eq_nil_or_concat b with rfl | ⟨front, last, rfl⟩
  · rfl
  · have bound := LittleEndian.decode_lt front
    have pos : 0 < 256 ^ front.length := Nat.pow_pos (by decide)
    rw [List.concat_eq_append, withoutSign_concat, LittleEndian.decode_append,
      LittleEndian.decode_append, List.length_append, List.length_singleton, pow_eq,
      Nat.mul_comm 128, Nat.mod_mul, Nat.add_mul_mod_self_left, Nat.mod_eq_of_lt bound,
      Nat.add_mul_div_left _ _ pos, Nat.div_eq_of_lt bound, Nat.zero_add]
    simp only [LittleEndian.decode, Nat.mul_zero, Nat.add_zero, toNat_and]

theorem integer_eq (b : Bytes) :
    integer b = sign b * (LittleEndian.decode b % 2 ^ (8 * b.length - 1) : Nat) := by
  rw [sign_eq, integer, decode_withoutSign]
  cases isNegative b <;> simp

theorem withoutSign_take {b : Bytes} {n : Nat} (fewer : n < b.length) :
    (withoutSign b).take n = b.take n := by
  rcases List.eq_nil_or_concat b with rfl | ⟨front, last, rfl⟩
  · rfl
  · rw [List.concat_eq_append, List.length_append, List.length_singleton] at fewer
    have within : n ≤ front.length := by omega
    rw [List.concat_eq_append, withoutSign_concat, List.take_append_of_le_length within,
      List.take_append_of_le_length within]

theorem toInt_value_modEq {b : Bytes} (long : 8 < b.length) :
    (value b).toInt ≡ sign b * LittleEndian.decode (b.take 8) [ZMOD 2 ^ 64] := by
  have worth : value b = Int64.ofInt (sign b * LittleEndian.decode (b.take 8)) := by
    rw [value, withoutSign_take long, sign_eq]
    cases isNegative b <;> simp
  rw [worth, Int64.toInt_ofInt]
  exact Int.bmod_emod

/-- Bytes within the limit are read as a number. Up to eight of them spell it, between the ends of
the range that its sign and 63 bits span, and of more the first eight spell it modulo `2 ^ 64`. A
number is written with `k` bytes or fewer exactly when its magnitude leaves one bit of them free,
and never with more than nine. -/
theorem decodeLoose_range :
    (∀ (b : Bytes) (limit : Nat), b.length ≤ limit → ∃ n, decodeLoose limit b = .ok n ∧
      (b.length ≤ 8 →
        n.toInt = sign b * (LittleEndian.decode b % 2 ^ (8 * b.length - 1) : Nat) ∧
          -(2 ^ 63 - 1) ≤ n.toInt ∧ n.toInt ≤ 2 ^ 63 - 1) ∧
      (8 < b.length →
        n.toInt ≡ sign b * LittleEndian.decode (b.take 8) [ZMOD 2 ^ 64])) ∧
    ∀ n : Int64,
      (∀ k : Nat, 0 < k → ((encode n.toInt).length ≤ k ↔ n.toInt.natAbs < 2 ^ (8 * k - 1))) ∧
        (encode n.toInt).length ≤ 9 := by
  constructor
  · intro b limit fits
    refine ⟨value b, decodeLoose_eq_ok_iff.mpr ⟨fits, rfl⟩, ?_, toInt_value_modEq⟩
    intro short
    have bound : (integer b).natAbs < 2 ^ 63 := natAbs_integer_lt_of_le short
    rw [toInt_value short]
    exact ⟨integer_eq b, by omega, by omega⟩
  · intro n
    exact ⟨fun k pos => length_encode_le_iff pos, length_encode_le n⟩

/-- Eight bytes with every bit set, ten bytes of which the last one gives the sign, and the least
number of 64 bits. -/
theorem decodeLoose_range_ends :
    ((List.replicate 8 (0xff : UInt8)).length ≤ 8 ∧
        ∃ n, decodeLoose 8 (List.replicate 8 0xff) = .ok n ∧ n.toInt = -(2 ^ 63 - 1)) ∧
      (([1, 0, 0, 0, 0, 0, 0, 0, 5, 0x80] : Bytes).length ≤ 10 ∧
        ∃ n, decodeLoose 10 [1, 0, 0, 0, 0, 0, 0, 0, 5, 0x80] = .ok n ∧
          n.toInt ≡ -1 [ZMOD 2 ^ 64]) ∧
      0 < 8 ∧ ¬ (encode Int64.minValue.toInt).length ≤ 8 ∧
        (encode Int64.minValue.toInt).length ≤ 9 := by
  obtain ⟨reads, writes⟩ := decodeLoose_range
  have full : (List.replicate 8 (0xff : UInt8)).length ≤ 8 := by decide
  have long : ([1, 0, 0, 0, 0, 0, 0, 0, 5, 0x80] : Bytes).length ≤ 10 := by decide
  obtain ⟨least, readLeast, spelled, -⟩ := reads _ 8 full
  obtain ⟨n, read, -, congruent⟩ := reads _ 10 long
  obtain ⟨width, nine⟩ := writes Int64.minValue
  have tooWide : ¬ Int64.minValue.toInt.natAbs < 2 ^ (8 * 8 - 1) := by decide
  refine ⟨⟨full, least, readLeast, (spelled full).1⟩, ⟨long, n, read, congruent (by decide)⟩,
    by decide, ?_, nine⟩
  rwa [width 8 (by decide)]

end LockingScript.Number
