import LockingScript.Number
import LockingScript.Proofs.Bytes.LittleEndian

/-!
# The value of a number's bytes

A number's bytes stand for the magnitude that is left without the sign, taken with the sign. Seen
from its last byte an encoding is either sign and magnitude in one byte, or a byte with nothing but
the sign behind a magnitude that fills its own. Both are minimal and have the value encoded.
-/

namespace LockingScript.Number

/-- The number that the bytes stand for, however long they are. -/
def integer (b : Bytes) : Int :=
  let size : Int := LittleEndian.decode (withoutSign b)
  if isNegative b then -size else size

theorem withSign_concat (negative : Bool) (front : Bytes) (last : UInt8) :
    withSign negative (front ++ [last]) =
      front ++ withSign negative [last] := by
  induction front with
  | nil => rfl
  | cons b front ih =>
      cases front with
      | nil => rfl
      | cons c front => exact congrArg (b :: ·) ih

theorem withoutSign_concat (front : Bytes) (last : UInt8) :
    withoutSign (front ++ [last]) = front ++ [last &&& 0x7f] := by
  induction front with
  | nil => rfl
  | cons b front ih =>
      cases front with
      | nil => rfl
      | cons c front => exact congrArg (b :: ·) ih

theorem isNegative_concat (front : Bytes) (last : UInt8) :
    isNegative (front ++ [last]) = (last &&& 0x80 != 0) := by
  simp [isNegative]

theorem isMinimal_concat_concat (front : Bytes) (before last : UInt8) :
    IsMinimal (front ++ [before, last]) ↔ last &&& 0x7f ≠ 0 ∨ before &&& 0x80 ≠ 0 := by
  induction front with
  | nil => rfl
  | cons b front ih =>
      cases front with
      | nil => exact ih
      | cons c front => cases front <;> exact ih

theorem isMinimal_concat_of_ne {front : Bytes} {last : UInt8} (holds : last &&& 0x7f ≠ 0) :
    IsMinimal (front ++ [last]) := by
  rcases List.eq_nil_or_concat front with rfl | ⟨front, before, rfl⟩
  · exact holds
  · rw [List.concat_eq_append, List.append_assoc]
    exact (isMinimal_concat_concat front before last).mpr (.inl holds)

theorem magnitude_of_pos {n : Nat} (pos : 0 < n) :
    magnitude n = UInt8.ofNat n :: magnitude (n / 256) := by
  rw [magnitude, if_neg (by omega)]

@[simp] theorem magnitude_zero : magnitude 0 = [] := by
  rw [magnitude, if_pos rfl]

@[simp] theorem decode_magnitude (n : Nat) : LittleEndian.decode (magnitude n) = n := by
  induction n using Nat.strongRecOn with
  | ind n ih =>
      by_cases zero : n = 0
      · simp [zero, LittleEndian.decode]
      · have low : (UInt8.ofNat n).toNat = n % 256 := UInt8.toNat_ofNat'
        rw [magnitude_of_pos (by omega), LittleEndian.decode, ih _ (by omega), low]
        omega

/-- The last byte of a magnitude is not zero. -/
theorem exists_magnitude_eq_concat {n : Nat} (pos : 0 < n) :
    ∃ front last, magnitude n = front ++ [last] ∧ last ≠ 0 := by
  induction n using Nat.strongRecOn with
  | ind n ih =>
      rw [magnitude_of_pos pos]
      by_cases small : n < 256
      · refine ⟨[], UInt8.ofNat n, by simp [Nat.div_eq_of_lt small], ?_⟩
        intro zero
        have := congrArg UInt8.toNat zero
        rw [UInt8.toNat_ofNat', Nat.mod_eq_of_lt small, UInt8.toNat_zero] at this
        omega
      · obtain ⟨front, last, ends, nonzero⟩ := ih (n / 256) (by omega) (by omega)
        exact ⟨UInt8.ofNat n :: front, last, by rw [ends, List.cons_append], nonzero⟩

/-- A byte is put together from its top bit and the rest of it. -/
theorem rest_or_sign (b : UInt8) : b &&& 0x7f ||| b &&& 0x80 = b := by
  apply UInt8.toBitVec_inj.mp
  have all : 0x7f#8 ||| 0x80#8 = BitVec.allOnes 8 := by decide
  calc b.toBitVec &&& 0x7f#8 ||| b.toBitVec &&& 0x80#8
    _ = b.toBitVec &&& (0x7f#8 ||| 0x80#8) := BitVec.and_or_distrib_left.symm
    _ = b.toBitVec := by rw [all, BitVec.and_allOnes]

theorem or_and_distrib (a b c : UInt8) : (a ||| b) &&& c = a &&& c ||| b &&& c :=
  UInt8.toBitVec_inj.mp BitVec.and_or_distrib_right

/-- What putting the sign into the last byte of a magnitude does: the sign can be read off the last
byte, the rest of it is as it was, and it is there for the sign's sake only if it had to be. -/
theorem sign_last {last : UInt8} (nonzero : last ≠ 0) (negative : Bool) :
    (last &&& 0x80 = 0 ∧ ∃ signed, withSign negative [last] = [signed] ∧ signed &&& 0x7f = last ∧
        (signed &&& 0x80 != 0) = negative ∧ signed &&& 0x7f ≠ 0) ∨
      (last &&& 0x80 ≠ 0 ∧ ∃ sign, withSign negative [last] = [last, sign] ∧ sign &&& 0x7f = 0 ∧
        (sign &&& 0x80 != 0) = negative) := by
  have low : ∀ negative : Bool, (if negative then 0x80 else 0x00 : UInt8) &&& 0x7f = 0 := by decide
  have high : ∀ negative : Bool,
      ((if negative then 0x80 else 0x00 : UInt8) &&& 0x80 != 0) = negative := by decide
  by_cases room : last &&& 0x80 = 0
  · have whole := rest_or_sign last
    rw [room, UInt8.or_zero] at whole
    refine .inl ⟨room, _, by rw [withSign, if_pos room], ?_⟩
    rw [or_and_distrib, or_and_distrib, room, whole, low, UInt8.or_zero, UInt8.zero_or]
    exact ⟨rfl, high negative, nonzero⟩
  · exact .inr ⟨room, _, by rw [withSign, if_neg room], low negative, high negative⟩

/-- The two shapes of an encoding: the sign in the last byte of the magnitude, or behind it. -/
theorem encode_shape {n : Int} (nonzero : n ≠ 0) :
    ∃ front last,
      magnitude n.natAbs = front ++ [last] ∧ last ≠ 0 ∧
        ((last &&& 0x80 = 0 ∧ ∃ signed, encode n = front ++ [signed] ∧ signed &&& 0x7f = last ∧
            (signed &&& 0x80 != 0) = decide (n < 0) ∧ signed &&& 0x7f ≠ 0) ∨
          (last &&& 0x80 ≠ 0 ∧ ∃ sign, encode n = front ++ [last, sign] ∧ sign &&& 0x7f = 0 ∧
            (sign &&& 0x80 != 0) = decide (n < 0))) := by
  obtain ⟨front, last, ends, lastNonzero⟩ := exists_magnitude_eq_concat (Int.natAbs_pos.mpr nonzero)
  refine ⟨front, last, ends, lastNonzero, ?_⟩
  have written : encode n = front ++ withSign (n < 0) [last] := by
    rw [encode, ends, withSign_concat]
  rcases sign_last lastNonzero (n < 0) with ⟨room, signed, put, facts⟩ | ⟨full, sign, put, facts⟩
  · exact .inl ⟨room, signed, by rw [written, put], facts⟩
  · exact .inr ⟨full, sign, by rw [written, put], facts⟩

@[simp] theorem encode_zero : encode 0 = [] := by
  simp [encode, withSign]

@[simp] theorem decode_withoutSign_encode (n : Int) :
    LittleEndian.decode (withoutSign (encode n)) = n.natAbs := by
  by_cases zero : n = 0
  · simp [zero, withoutSign, LittleEndian.decode]
  · obtain ⟨front, last, ends, -, shape⟩ := encode_shape zero
    have size := decode_magnitude n.natAbs
    rw [ends] at size
    rcases shape with ⟨-, signed, written, rest, -, -⟩ | ⟨-, sign, written, rest, -⟩
    · rw [written, withoutSign_concat, rest, size]
    · have split : front ++ [last, sign] = (front ++ [last]) ++ [sign] := by simp
      rw [written, split, withoutSign_concat, rest, LittleEndian.decode_append, size]
      simp [LittleEndian.decode]

theorem isNegative_encode (n : Int) : isNegative (encode n) = decide (n < 0) := by
  by_cases zero : n = 0
  · simp [zero, isNegative]
  · obtain ⟨front, last, -, -, shape⟩ := encode_shape zero
    rcases shape with ⟨-, signed, written, -, sign, -⟩ | ⟨-, sign, written, -, sign⟩
    · rw [written, isNegative_concat, sign]
    · have split (x : UInt8) : front ++ [last, x] = (front ++ [last]) ++ [x] := by simp
      rw [written, split, isNegative_concat, sign]

@[simp] theorem integer_encode (n : Int) : integer (encode n) = n := by
  simp only [integer, decode_withoutSign_encode, isNegative_encode, decide_eq_true_eq]
  split <;> omega

theorem isMinimal_encode (n : Int) : IsMinimal (encode n) := by
  by_cases zero : n = 0
  · simp [zero, IsMinimal]
  · obtain ⟨front, last, -, -, shape⟩ := encode_shape zero
    rcases shape with ⟨-, signed, written, -, -, holds⟩ | ⟨full, sign, written, -, -⟩
    · rw [written]
      exact isMinimal_concat_of_ne holds
    · rw [written]
      exact (isMinimal_concat_concat front last sign).mpr (.inr full)

theorem ofInt_add_mul (n k : Int) : Int64.ofInt (n + Int64.size * k) = Int64.ofInt n := by
  apply Int64.toInt_inj.mp
  rw [Int64.toInt_ofInt, Int64.toInt_ofInt]
  exact Int.add_mul_bmod_self_left n Int64.size k

theorem exists_decode_eq_take_add (b : Bytes) :
    ∃ k, LittleEndian.decode b = LittleEndian.decode (b.take 8) + Int64.size * k := by
  by_cases short : b.length ≤ 8
  · exact ⟨0, by rw [List.take_of_length_le short, Nat.mul_zero, Nat.add_zero]⟩
  · refine ⟨LittleEndian.decode (b.drop 8), ?_⟩
    have eight : (b.take 8).length = 8 := by
      rw [List.length_take]
      omega
    have width : 256 ^ 8 = Int64.size := by decide
    conv => lhs; rw [← List.take_append_drop 8 b, LittleEndian.decode_append, eight, width]

/-- Bytes behind the eighth do not count modulo `2 ^ 64`. -/
theorem value_eq_ofInt_integer (b : Bytes) : value b = Int64.ofInt (integer b) := by
  obtain ⟨k, whole⟩ := exists_decode_eq_take_add (withoutSign b)
  unfold value integer
  rw [whole, Int.natCast_add, Int.natCast_mul]
  cases isNegative b with
  | false => exact (ofInt_add_mul _ _).symm
  | true =>
      simp only [if_true]
      rw [Int.neg_add, ← Int.mul_neg, ofInt_add_mul]

@[simp] theorem value_encode (n : Int64) : value (encode n.toInt) = n := by
  rw [value_eq_ofInt_integer, integer_encode, Int64.ofInt_toInt]

theorem decode_encode {n : Int64} {limit : Nat} (short : (encode n.toInt).length ≤ limit) :
    decode limit (encode n.toInt) = .ok n := by
  have loose : decodeLoose limit (encode n.toInt) = .ok n := by
    rw [decodeLoose, if_neg (Nat.not_lt_of_le short), value_encode]
  have minimal : checkMinimal (encode n.toInt) = .ok () := if_pos (isMinimal_encode n.toInt)
  rw [decode, loose]
  simp only [bind, Except.bind, minimal]
  rfl

theorem toNat_and (x : UInt8) : (x &&& 0x7f).toNat = x.toNat % 128 :=
  Nat.and_two_pow_sub_one_eq_mod x.toNat 7

/-- The top bit apart, a byte is worth less than 128. -/
theorem toNat_and_lt (x : UInt8) : (x &&& 0x7f).toNat < 128 := by
  rw [toNat_and]
  exact Nat.mod_lt _ (by decide)

theorem le_toNat_of_and_ne {x : UInt8} (set : x &&& 0x80 ≠ 0) : 128 ≤ x.toNat := by
  by_contra small
  have unchanged : x.toNat &&& 2 ^ 7 - 1 = x.toNat :=
    Nat.and_two_pow_sub_one_of_lt_two_pow (by omega)
  have rest : x &&& 0x7f = x := UInt8.toNat_inj.mp unchanged
  apply set
  rw [← rest, UInt8.and_assoc]
  exact UInt8.and_zero

theorem natAbs_integer (b : Bytes) :
    (integer b).natAbs = LittleEndian.decode (withoutSign b) := by
  unfold integer
  cases isNegative b <;> simp

theorem pow_eq (n : Nat) : 2 ^ (8 * (n + 1) - 1) = 128 * 256 ^ n := by
  have exponent : 8 * (n + 1) - 1 = 7 + 8 * n := by omega
  rw [exponent, Nat.pow_add, Nat.pow_mul]

theorem natAbs_integer_lt {b : Bytes} (nonempty : b ≠ []) :
    (integer b).natAbs < 2 ^ (8 * b.length - 1) := by
  rcases List.eq_nil_or_concat b with rfl | ⟨front, last, rfl⟩
  · exact absurd rfl nonempty
  · rw [List.concat_eq_append, natAbs_integer, withoutSign_concat, LittleEndian.decode_append,
      List.length_append, List.length_singleton, pow_eq]
    have frontBound := LittleEndian.decode_lt front
    have lastBound := toNat_and_lt last
    simp only [LittleEndian.decode, Nat.mul_zero, Nat.add_zero]
    calc LittleEndian.decode front + 256 ^ front.length * (last &&& 0x7f).toNat
        < 256 ^ front.length + 256 ^ front.length * (last &&& 0x7f).toNat :=
          Nat.add_lt_add_right frontBound _
      _ = 256 ^ front.length * ((last &&& 0x7f).toNat + 1) := by
          rw [Nat.mul_add, Nat.mul_one, Nat.add_comm]
      _ ≤ 256 ^ front.length * 128 := Nat.mul_le_mul_left _ lastBound
      _ = 128 * 256 ^ front.length := Nat.mul_comm _ _

theorem natAbs_integer_lt_of_le {b : Bytes} {k : Nat} (fits : b.length ≤ k) :
    (integer b).natAbs < 2 ^ (8 * k - 1) := by
  by_cases empty : b = []
  · rw [empty]
    exact Nat.two_pow_pos _
  · exact Nat.lt_of_lt_of_le (natAbs_integer_lt empty)
      (Nat.pow_le_pow_right (by decide) (by omega))

/-- A minimal encoding of more than one byte is not worth less than its length says. -/
theorem le_natAbs_integer {b : Bytes} {k : Nat} (minimal : IsMinimal b) (pos : 0 < k)
    (long : b.length = k + 1) : 2 ^ (8 * k - 1) ≤ (integer b).natAbs := by
  rcases List.eq_nil_or_concat b with rfl | ⟨front, last, rfl⟩
  · cases long
  rcases List.eq_nil_or_concat front with rfl | ⟨front, before, rfl⟩
  · simp at long
    omega
  obtain ⟨j, rfl⟩ : ∃ j, k = j + 1 := ⟨k - 1, by omega⟩
  simp only [List.concat_eq_append, List.append_assoc, List.singleton_append] at minimal
  have length : front.length = j := by
    simp only [List.concat_eq_append, List.length_append, List.length_singleton] at long
    omega
  rw [List.concat_eq_append, natAbs_integer, withoutSign_concat, List.concat_eq_append,
    LittleEndian.decode_append, LittleEndian.decode_append, pow_eq, List.length_append, length,
    List.length_singleton, Nat.pow_succ]
  simp only [LittleEndian.decode, Nat.mul_zero, Nat.add_zero]
  rcases (isMinimal_concat_concat front before last).mp minimal with holds | apart
  · have positive : 1 ≤ (last &&& 0x7f).toNat := by
      apply Nat.pos_of_ne_zero
      intro zero
      exact holds (UInt8.toNat_inj.mp zero)
    have := Nat.mul_le_mul_left (256 ^ j * 256) positive
    omega
  · have := Nat.mul_le_mul_left (256 ^ j) (le_toNat_of_and_ne apart)
    omega

theorem encode_ne_nil {n : Int} (nonzero : n ≠ 0) : encode n ≠ [] := by
  intro empty
  have worth := integer_encode n
  rw [empty] at worth
  exact nonzero worth.symm

/-- An encoding has one bit for the sign and the others for the magnitude. -/
theorem length_encode_le_iff {n : Int} {k : Nat} (pos : 0 < k) :
    (encode n).length ≤ k ↔ n.natAbs < 2 ^ (8 * k - 1) := by
  constructor
  · intro short
    have bound := natAbs_integer_lt_of_le short
    rwa [integer_encode] at bound
  · intro small
    apply Nat.le_of_not_lt
    intro long
    obtain ⟨j, length⟩ : ∃ j, (encode n).length = j + 1 := ⟨(encode n).length - 1, by omega⟩
    have bound := le_natAbs_integer (isMinimal_encode n) (by omega : 0 < j) length
    have wider : 2 ^ (8 * k - 1) ≤ 2 ^ (8 * j - 1) :=
      Nat.pow_le_pow_right (by decide) (by omega)
    rw [integer_encode] at bound
    omega

theorem length_encode_le (n : Int64) : (encode n.toInt).length ≤ 9 := by
  have high := n.toInt_lt
  have low := n.le_toInt
  exact (length_encode_le_iff (by decide)).mpr (by omega)

end LockingScript.Number
