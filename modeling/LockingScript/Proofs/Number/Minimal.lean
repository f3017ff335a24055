import LockingScript.Proofs.Number.Value

/-!
# Minimal numbers

Minimal bytes are the encoding of the number that they stand for, so a number has one minimal
encoding. Up to eight bytes stand for a number of 64 bits, and reading them accepts exactly what
writing produces.
-/

namespace LockingScript.Number

/-- Bytes that end in no zero are a magnitude. -/
theorem magnitude_decode {front : Bytes} {last : UInt8} (nonzero : last ≠ 0) :
    magnitude (LittleEndian.decode (front ++ [last])) = front ++ [last] := by
  induction front with
  | nil =>
      have pos : 0 < last.toNat := by
        apply Nat.pos_of_ne_zero
        intro zero
        exact nonzero (UInt8.toNat_inj.mp zero)
      have single : last.toNat / 256 = 0 := Nat.div_eq_of_lt last.toNat_lt
      rw [List.nil_append, LittleEndian.decode, LittleEndian.decode, Nat.mul_zero, Nat.add_zero,
        magnitude_of_pos pos, UInt8.ofNat_toNat, single, magnitude_zero]
  | cons x front ih =>
      have pos : 0 < LittleEndian.decode (front ++ [last]) := by
        apply Nat.pos_of_ne_zero
        intro zero
        rw [zero, magnitude_zero] at ih
        exact List.cons_ne_nil _ _ (List.append_eq_nil_iff.mp ih.symm).2
      have rest : (x.toNat + 256 * LittleEndian.decode (front ++ [last])) / 256 =
          LittleEndian.decode (front ++ [last]) := by
        have bound := x.toNat_lt
        omega
      rw [List.cons_append, LittleEndian.decode, magnitude_of_pos (by omega),
        LittleEndian.ofNat_toNat_add_mul, rest, ih]

theorem decide_integer_neg {b : Bytes} (nonzero : (integer b).natAbs ≠ 0) :
    decide (integer b < 0) = isNegative b := by
  unfold integer at nonzero ⊢
  cases isNegative b with
  | false =>
      apply decide_eq_false
      simp
  | true =>
      apply decide_eq_true
      simp only [if_true] at nonzero ⊢
      omega

/-- Without its sign an encoding is worth its magnitude. If bytes are worth a magnitude they are
therefore encoded as this magnitude with their sign. -/
theorem encode_integer_of_magnitude {b front : Bytes} {last : UInt8} (nonzero : last ≠ 0)
    (worth : LittleEndian.decode (withoutSign b) = LittleEndian.decode (front ++ [last])) :
    encode (integer b) = front ++ withSign (isNegative b) [last] := by
  have size : magnitude (integer b).natAbs = front ++ [last] := by
    rw [natAbs_integer, worth, magnitude_decode nonzero]
  have counts : (integer b).natAbs ≠ 0 := by
    intro zero
    rw [zero, magnitude_zero] at size
    exact List.cons_ne_nil _ _ (List.append_eq_nil_iff.mp size.symm).2
  rw [encode, size, withSign_concat, decide_integer_neg counts]

theorem sign_eq_and (b : UInt8) : (if b &&& 0x80 != 0 then 0x80 else 0x00) = b &&& 0x80 := by
  have bit : (b &&& 0x80).toBitVec = if b.toBitVec.getLsbD 7 then 0x80#8 else 0#8 :=
    BitVec.and_twoPow b.toBitVec 7
  obtain clear | set : b &&& 0x80 = 0 ∨ b &&& 0x80 = 0x80 := by
    cases top : b.toBitVec.getLsbD 7 <;> rw [top] at bit
    · exact .inl (UInt8.toBitVec_inj.mp bit)
    · exact .inr (UInt8.toBitVec_inj.mp bit)
  · rw [clear]
    rfl
  · rw [set]
    rfl

theorem and_or_sign (b : UInt8) :
    b &&& 0x7f ||| (if b &&& 0x80 != 0 then 0x80 else 0x00) = b := by
  rw [sign_eq_and, rest_or_sign]

theorem withSign_and (last : UInt8) : withSign (last &&& 0x80 != 0) [last &&& 0x7f] = [last] := by
  have room : last &&& 0x7f &&& 0x80 = 0 := by
    rw [UInt8.and_assoc]
    exact UInt8.and_zero
  rw [withSign, if_pos room, and_or_sign]

theorem withSign_full {before last : UInt8} (full : before &&& 0x80 ≠ 0)
    (bare : last &&& 0x7f = 0) : withSign (last &&& 0x80 != 0) [before] = [before, last] := by
  have sign := and_or_sign last
  rw [bare, UInt8.zero_or] at sign
  rw [withSign, if_neg full, sign]

theorem encode_integer {b : Bytes} (minimal : IsMinimal b) : encode (integer b) = b := by
  rcases List.eq_nil_or_concat b with rfl | ⟨front, last, rfl⟩
  · exact encode_zero
  rw [List.concat_eq_append] at minimal ⊢
  by_cases holds : last &&& 0x7f = 0
  · -- A last byte with nothing but the sign is minimal only behind a byte that it leaves full.
    rcases List.eq_nil_or_concat front with rfl | ⟨front, before, rfl⟩
    · exact absurd holds minimal
    rw [List.concat_eq_append, List.append_assoc, List.singleton_append] at minimal ⊢
    have full : before &&& 0x80 ≠ 0 := by
      rcases (isMinimal_concat_concat front before last).mp minimal with other | full
      · exact absurd holds other
      · exact full
    have nonzero : before ≠ 0 := by
      rintro rfl
      exact full rfl
    have split : front ++ [before, last] = (front ++ [before]) ++ [last] := by simp
    have worth : LittleEndian.decode (withoutSign (front ++ [before, last])) =
        LittleEndian.decode (front ++ [before]) := by
      rw [split, withoutSign_concat, holds, LittleEndian.decode_append]
      simp [LittleEndian.decode]
    rw [encode_integer_of_magnitude nonzero worth, split, isNegative_concat,
      withSign_full full holds, List.append_assoc, List.singleton_append]
  · have worth := congrArg LittleEndian.decode (withoutSign_concat front last)
    rw [encode_integer_of_magnitude holds worth, isNegative_concat, withSign_and last]

theorem toInt_value {b : Bytes} (short : b.length ≤ 8) : (value b).toInt = integer b := by
  have bound : (integer b).natAbs < 2 ^ 63 := natAbs_integer_lt_of_le short
  rw [value_eq_ofInt_integer]
  exact Int64.toInt_ofInt_of_le (by omega) (by omega)

theorem decodeLoose_eq_ok_iff {limit : Nat} {b : Bytes} {n : Int64} :
    decodeLoose limit b = .ok n ↔ b.length ≤ limit ∧ value b = n := by
  unfold decodeLoose
  split
  · rename_i long
    simp [Nat.not_le_of_lt long]
  · rename_i fits
    rw [Except.ok.injEq, and_iff_right (Nat.le_of_not_lt fits)]

theorem checkMinimal_eq_ok_iff {b : Bytes} : checkMinimal b = .ok () ↔ IsMinimal b := by
  unfold checkMinimal
  split
  · rename_i minimal
    exact iff_of_true rfl minimal
  · rename_i loose
    exact iff_of_false nofun loose

theorem decode_eq_ok {limit : Nat} {b : Bytes} {n : Int64} (read : decode limit b = .ok n) :
    b.length ≤ limit ∧ IsMinimal b ∧ value b = n := by
  unfold decode at read
  cases loose : decodeLoose limit b with
  | error cause =>
      rw [loose] at read
      cases read
  | ok m =>
      cases checked : checkMinimal b with
      | error cause =>
          rw [loose, checked] at read
          cases read
      | ok =>
          rw [loose, checked] at read
          obtain rfl : m = n := Except.ok.inj read
          obtain ⟨fits, worth⟩ := decodeLoose_eq_ok_iff.mp loose
          exact ⟨fits, checkMinimal_eq_ok_iff.mp checked, worth⟩

/-- Up to eight bytes are read as a number exactly when they are its encoding. -/
theorem decode_eq_ok_iff {limit : Nat} {b : Bytes} {n : Int64} (small : limit ≤ 8) :
    decode limit b = .ok n ↔ b.length ≤ limit ∧ encode n.toInt = b := by
  constructor
  · intro read
    obtain ⟨short, minimal, rfl⟩ := decode_eq_ok read
    refine ⟨short, ?_⟩
    rw [toInt_value (Nat.le_trans short small), encode_integer minimal]
  · rintro ⟨short, rfl⟩
    exact decode_encode short

theorem decode_of_tooLong {limit : Nat} {b : Bytes} (long : limit < b.length) :
    decode limit b = .error (.numberTooLong b.length limit) := by
  rw [decode, decodeLoose, if_pos long]
  rfl

/-- Every number of 64 bits is read back from its encoding, the least one too, which takes nine
bytes. Only the limit can be in the way, and it is reported as such. Up to eight bytes are read as
a number exactly when they are its encoding. -/
theorem decode_inverse_encode :
    (∀ (n : Int64) (limit : Nat),
      decode limit (encode n.toInt) =
        if (encode n.toInt).length ≤ limit then .ok n
        else .error (.numberTooLong (encode n.toInt).length limit)) ∧
      (∀ n : Int64, decode 9 (encode n.toInt) = .ok n) ∧
      ∀ (b : Bytes) (n : Int64), b.length ≤ 8 → (decode 8 b = .ok n ↔ encode n.toInt = b) := by
  refine ⟨?_, ?_, ?_⟩
  · intro n limit
    split
    · rename_i short
      exact decode_encode short
    · rename_i long
      exact decode_of_tooLong (Nat.lt_of_not_le long)
  · intro n
    exact decode_encode (length_encode_le n)
  · intro b n short
    rw [decode_eq_ok_iff (Nat.le_refl 8)]
    exact and_iff_right short

/-- The least number of 64 bits, and the least one that eight bytes hold. -/
theorem decode_inverse_encode_least :
    encode Int64.minValue.toInt = [0, 0, 0, 0, 0, 0, 0, 0x80, 0x80] ∧
      decode 9 [0, 0, 0, 0, 0, 0, 0, 0x80, 0x80] = .ok Int64.minValue ∧
      decode 8 [0, 0, 0, 0, 0, 0, 0, 0x80, 0x80] = .error (.numberTooLong 9 8) ∧
      (List.replicate 8 (0xff : UInt8)).length ≤ 8 ∧
      decode 8 (List.replicate 8 0xff) = .ok (-9223372036854775807) := by
  have least : encode Int64.minValue.toInt = [0, 0, 0, 0, 0, 0, 0, 0x80, 0x80] :=
    encode_integer (b := [0, 0, 0, 0, 0, 0, 0, 0x80, 0x80]) (by decide)
  have full : encode (-9223372036854775807 : Int64).toInt = List.replicate 8 0xff :=
    encode_integer (b := List.replicate 8 0xff) (by decide)
  have short : (List.replicate 8 (0xff : UInt8)).length ≤ 8 := by decide
  obtain ⟨limited, nine, eight⟩ := decode_inverse_encode
  have back := nine Int64.minValue
  have refused := limited Int64.minValue 8
  rw [least] at back refused
  exact ⟨least, back, refused, short, (eight _ _ short).mpr full⟩

end LockingScript.Number
