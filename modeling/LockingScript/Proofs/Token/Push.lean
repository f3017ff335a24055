import LockingScript.Proofs.Number.Value
import LockingScript.Proofs.Token.Reading
import LockingScript.Token.Push

/-!
# Pushes of data and numbers

What is pushed is pushed by a well-formed token: by an opcode that stands for it, or with the
length that the opcode or its prefix says. A number other than -1 is read back from the token that
pushes it. The opcode for -1 is no number to the reader.
-/

namespace LockingScript

namespace Opcode

theorem lengthRule_data {n : Nat} (direct : n ≤ 75) : (data n).lengthRule = .fixed n := by
  have every : ∀ n < 76, (data n).lengthRule = .fixed n := by decide
  exact every n (by omega)

theorem isPush_data {n : Nat} (direct : n ≤ 75) : (data n).IsPush := by
  have every : ∀ n < 76, (data n).IsPush := by decide
  exact every n (by omega)

theorem smallInt?_data {n : Nat} (direct : n ≤ 75) (pos : 0 < n) : (data n).smallInt? = none := by
  have every : ∀ n < 76, 0 < n → (data n).smallInt? = none := by decide
  exact every n (by omega) pos

/-- The opcode for a push of `n` bytes that no opcode stands for. -/
def forLength (n : Nat) : Opcode :=
  if n ≤ 75 then data n
  else if n ≤ 0xff then pushData1
  else if n ≤ 0xffff then pushData2
  else pushData4

theorem isPush_forLength (n : Nat) : (forLength n).IsPush := by
  unfold forLength
  split
  · rename_i direct
    exact isPush_data direct
  · split
    · decide
    · split <;> decide

theorem prefixWidth_le (op : Opcode) : op.prefixWidth ≤ 4 := by
  unfold prefixWidth lengthRule
  split_ifs <;> simp

theorem forData?_singleton (b : UInt8) :
    forData? [b] =
      if b ≤ 16 then some (ofSmallInt b.toNat)
      else if b = 0x81 then some negativeOne
      else none := rfl

theorem lengthRule_of_forData? {data : Bytes} {op : Opcode} (constant : forData? data = some op) :
    op.lengthRule = .fixed 0 := by
  match data, constant with
  | [], rfl => rfl
  | [b], constant =>
      rw [forData?_singleton] at constant
      split at constant
      · rename_i small
        have bound : b.toNat ≤ 16 := UInt8.le_iff_toNat_le.mp small
        rw [← Option.some.inj constant]
        exact lengthRule_ofSmallInt bound
      · split at constant
        · rw [← Option.some.inj constant]
          rfl
        · cases constant

theorem lengthRule_of_forInt? {n : Int64} {op : Opcode} (constant : forInt? n = some op) :
    op.lengthRule = .fixed 0 := by
  unfold forInt? at constant
  split at constant
  · rw [← Option.some.inj constant]
    rfl
  · split at constant
    · rename_i small
      have high : n.toInt ≤ 16 := Int64.le_iff_toInt_le.mp small.2
      rw [← Option.some.inj constant]
      exact lengthRule_ofSmallInt (by omega)
    · cases constant

end Opcode

namespace Token

theorem wellFormed_of_fixed_zero {op : Opcode} (rule : op.lengthRule = .fixed 0) :
    (Token.mk op []).WellFormed := by
  simp [WellFormed, rule]

theorem length_data_of_fixed {t : Token} {n : Nat} (wellFormed : t.WellFormed)
    (rule : t.opcode.lengthRule = .fixed n) : t.data.length = n := by
  simpa [WellFormed, rule] using wellFormed

/-- Behind the opcode of a direct push stands as much data as it says. -/
theorem length_data_of_data {t : Token} {n : Nat} (wellFormed : t.WellFormed)
    (opcode : t.opcode = .data n) (direct : n ≤ 75) : t.data.length = n :=
  length_data_of_fixed wellFormed (opcode ▸ Opcode.lengthRule_data direct)

theorem eq_of_fixed_zero {t : Token} {op : Opcode} (wellFormed : t.WellFormed)
    (opcode : t.opcode = op) (rule : op.lengthRule = .fixed 0) : t = ⟨op, []⟩ := by
  subst opcode
  have noData := List.eq_nil_of_length_eq_zero (length_data_of_fixed wellFormed rule)
  rw [← noData]

theorem wellFormed_data {data : Bytes} (direct : data.length ≤ 75) :
    (Token.mk (.data data.length) data).WellFormed := by
  simp [WellFormed, Opcode.lengthRule_data direct]

theorem wellFormed_forLength {data : Bytes} (short : data.length < 2 ^ 32) :
    (Token.mk (.forLength data.length) data).WellFormed := by
  unfold Opcode.forLength
  split
  · rename_i direct
    exact wellFormed_data direct
  · split
    · rename_i one
      have rule : Opcode.pushData1.lengthRule = .prefixed 1 := by decide
      simp only [WellFormed, rule]
      omega
    · split
      · rename_i two
        have rule : Opcode.pushData2.lengthRule = .prefixed 2 := by decide
        simp only [WellFormed, rule]
        omega
      · have rule : Opcode.pushData4.lengthRule = .prefixed 4 := by decide
        simp only [WellFormed, rule]
        omega

/-- What a token puts on the stack, if it is a push. -/
def pushed? (t : Token) : Option Bytes :=
  if t.opcode.IsPush then some t.data else t.opcode.constant?.map Number.encode

/-- The token that pushes the data. -/
def ofData (data : Bytes) : Token :=
  match Opcode.forData? data with
  | some op => ⟨op, []⟩
  | none => ⟨.forLength data.length, data⟩

/-- The token that pushes the number. -/
def ofInt (n : Int64) : Token :=
  match Opcode.forInt? n with
  | some op => ⟨op, []⟩
  | none => ofData (Number.encode n.toInt)

theorem ofData_of_constant {data : Bytes} {op : Opcode}
    (constant : Opcode.forData? data = some op) : ofData data = ⟨op, []⟩ := by
  rw [ofData, constant]

theorem ofData_of_noConstant {data : Bytes} (noConstant : Opcode.forData? data = none) :
    ofData data = ⟨.forLength data.length, data⟩ := by
  rw [ofData, noConstant]

theorem ofData_singleton (b : UInt8) :
    ofData [b] =
      if b ≤ 16 then ⟨.ofSmallInt b.toNat, []⟩
      else if b = 0x81 then ⟨.negativeOne, []⟩
      else ⟨.data 1, [b]⟩ := by
  rw [ofData, Opcode.forData?_singleton]
  split_ifs <;> rfl

theorem ofData_of_two_le {data : Bytes} (long : 2 ≤ data.length) :
    ofData data = ⟨.forLength data.length, data⟩ := by
  match data with
  | [] => simp at long
  | [b] => simp at long
  | b :: c :: rest => rfl

theorem ofData_direct {data : Bytes} (long : 2 ≤ data.length) (direct : data.length ≤ 75) :
    ofData data = ⟨.data data.length, data⟩ := by
  rw [ofData_of_two_le long, Opcode.forLength, if_pos direct]

theorem ofData_bytesN {n : Nat} (b : BytesN n) (long : 2 ≤ n) (direct : n ≤ 75) :
    ofData b.val = ⟨.data n, b.val⟩ := by
  have length := b.property
  rw [ofData_direct (by omega) (by omega), length]

theorem wellFormed_ofData {data : Bytes} (short : data.length < 2 ^ 32) :
    (ofData data).WellFormed := by
  cases constant : Opcode.forData? data with
  | some op =>
      rw [ofData_of_constant constant]
      exact wellFormed_of_fixed_zero (Opcode.lengthRule_of_forData? constant)
  | none =>
      rw [ofData_of_noConstant constant]
      exact wellFormed_forLength short

/-- Data is pushed by an opcode that takes data or stands for a number from 0 to 16, unless it is
the byte that the opcode for -1 stands for. -/
theorem pushes_ofData {data : Bytes} (other : data ≠ [0x81]) :
    (ofData data).opcode.IsPush ∨ (ofData data).opcode.smallInt?.isSome = true := by
  match data with
  | [] => exact .inl (by decide)
  | [b] =>
      rw [ofData_singleton]
      split
      · rename_i small
        have bound : b.toNat ≤ 16 := UInt8.le_iff_toNat_le.mp small
        exact .inr (by rw [Opcode.smallInt?_ofSmallInt bound]; rfl)
      · split
        · rename_i negative
          exact absurd (congrArg ([·]) negative) other
        · exact .inl (Opcode.isPush_data (by decide))
  | b :: c :: rest => exact .inl (Opcode.isPush_forLength _)

theorem length_data_ofData_le (data : Bytes) : (ofData data).data.length ≤ data.length := by
  cases constant : Opcode.forData? data with
  | some op =>
      rw [ofData_of_constant constant]
      exact Nat.zero_le _
  | none => rw [ofData_of_noConstant constant]

theorem size_ofData_le (data : Bytes) : (ofData data).size ≤ 5 + data.length := by
  have width := (ofData data).opcode.prefixWidth_le
  have length := length_data_ofData_le data
  rw [size]
  omega

theorem ofInt_negativeOne : ofInt (-1) = ⟨.negativeOne, []⟩ := rfl

theorem ne_negativeOne_of_nonneg {n : Int64} (low : 0 ≤ n.toInt) : n ≠ -1 := by
  rintro rfl
  revert low
  decide

theorem ofInt_small {n : Int64} (low : 0 ≤ n.toInt) (high : n.toInt ≤ 16) :
    ofInt n = ⟨.ofSmallInt n.toInt.toNat, []⟩ := by
  have small : 0 ≤ n ∧ n ≤ 16 :=
    ⟨Int64.le_iff_toInt_le.mpr low, Int64.le_iff_toInt_le.mpr high⟩
  rw [ofInt, Opcode.forInt?, if_neg (ne_negativeOne_of_nonneg low), if_pos small]

theorem ofInt_ofNat {k : Nat} (small : k ≤ 16) : ofInt (Int64.ofNat k) = ⟨.ofSmallInt k, []⟩ := by
  have worth : (Int64.ofNat k).toInt = k := Int64.toInt_ofNat_of_lt (by omega)
  rw [ofInt_small (by omega) (by omega), worth, Int.toNat_natCast]

/-- A single byte that encodes a number pushed as data is no byte that an opcode stands for. -/
theorem encode_ne_constant {n : Int64} {b : UInt8} (notNegative : n ≠ -1)
    (notSmall : ¬ (0 ≤ n.toInt ∧ n.toInt ≤ 16)) (single : Number.encode n.toInt = [b]) :
    16 < b ∧ b ≠ 0x81 := by
  have worth := Number.value_encode n
  rw [single] at worth
  have every : ∀ k < 17,
      0 ≤ (Number.value [UInt8.ofNat k]).toInt ∧ (Number.value [UInt8.ofNat k]).toInt ≤ 16 := by
    decide
  constructor
  · apply UInt8.not_le.mp
    intro small
    have low : b.toNat ≤ 16 := UInt8.le_iff_toNat_le.mp small
    have bounds := every b.toNat (by omega)
    rw [UInt8.ofNat_toNat, worth] at bounds
    exact notSmall bounds
  · rintro rfl
    exact notNegative worth.symm

theorem ofInt_direct {n : Int64} (notNegative : n ≠ -1)
    (notSmall : ¬ (0 ≤ n.toInt ∧ n.toInt ≤ 16)) :
    ofInt n = ⟨.data (Number.encode n.toInt).length, Number.encode n.toInt⟩ := by
  have notSmallWord : ¬ (0 ≤ n ∧ n ≤ 16) := by
    rintro ⟨low, high⟩
    exact notSmall ⟨Int64.le_iff_toInt_le.mp low, Int64.le_iff_toInt_le.mp high⟩
  have short := Number.length_encode_le n
  have noConstant : Opcode.forInt? n = none := by
    rw [Opcode.forInt?, if_neg notNegative, if_neg notSmallWord]
  rw [ofInt, noConstant]
  rcases encoded : Number.encode n.toInt with _ | ⟨b, _ | ⟨c, rest⟩⟩
  · have nonzero : n.toInt ≠ 0 := by
      intro zero
      exact notSmall (by omega)
    exact absurd encoded (Number.encode_ne_nil nonzero)
  · obtain ⟨large, other⟩ := encode_ne_constant notNegative notSmall encoded
    rw [ofData_singleton, if_neg (UInt8.not_le.mpr large), if_neg other]
    rfl
  · rw [encoded] at short
    exact ofData_direct (by simp) (Nat.le_trans short (by decide))

theorem wellFormed_ofInt (n : Int64) : (ofInt n).WellFormed := by
  by_cases negative : n = -1
  · rw [negative, ofInt_negativeOne]
    exact wellFormed_of_fixed_zero (by decide)
  · by_cases small : 0 ≤ n.toInt ∧ n.toInt ≤ 16
    · rw [ofInt_small small.1 small.2]
      exact wellFormed_of_fixed_zero (Opcode.lengthRule_ofSmallInt (by omega))
    · rw [ofInt_direct negative small]
      exact wellFormed_data (Nat.le_trans (Number.length_encode_le n) (by decide))

theorem size_of_fixed {t : Token} {n : Nat} (rule : t.opcode.lengthRule = .fixed n) :
    t.size = 1 + t.data.length := by
  simp [size, Opcode.prefixWidth, rule]

theorem size_plain {op : Opcode} (rule : op.lengthRule = .fixed 0) : (Token.mk op []).size = 1 :=
  size_of_fixed rule

theorem size_direct {n : Nat} (direct : n ≤ 75) (data : Bytes) :
    (Token.mk (.data n) data).size = 1 + data.length :=
  size_of_fixed (Opcode.lengthRule_data direct)

theorem size_ofInt_le (n : Int64) : (ofInt n).size ≤ 10 := by
  by_cases negative : n = -1
  · rw [negative]
    decide
  · by_cases small : 0 ≤ n.toInt ∧ n.toInt ≤ 16
    · rw [ofInt_small small.1 small.2, size_plain (Opcode.lengthRule_ofSmallInt (by omega))]
      decide
    · have short := Number.length_encode_le n
      rw [ofInt_direct negative small, size_direct (Nat.le_trans short (by decide))]
      omega

theorem integer?_small {n : Int64} (limit : Nat) (low : 0 ≤ n.toInt) (high : n.toInt ≤ 16) :
    (ofInt n).integer? limit = some n := by
  have same : Int64.ofNat n.toInt.toNat = n := by
    apply Int64.toInt_inj.mp
    rw [Int64.toInt_ofNat_of_lt (by omega)]
    omega
  rw [ofInt_small low high]
  simp only [integer?, Opcode.smallInt?_ofSmallInt (show n.toInt.toNat ≤ 16 by omega), same]

theorem integer?_direct {n : Int64} {limit : Nat} (notNegative : n ≠ -1)
    (notSmall : ¬ (0 ≤ n.toInt ∧ n.toInt ≤ 16))
    (short : (Number.encode n.toInt).length ≤ limit) : (ofInt n).integer? limit = some n := by
  have direct : (Number.encode n.toInt).length ≤ 75 :=
    Nat.le_trans (Number.length_encode_le n) (by decide)
  have nonempty : Number.encode n.toInt ≠ [] := by
    apply Number.encode_ne_nil
    intro zero
    exact notSmall (by omega)
  have canonical : (Token.mk (.data (Number.encode n.toInt).length)
      (Number.encode n.toInt)).isCanonical = true := by
    simp only [isCanonical, Opcode.lengthRule_data direct]
    split
    · rename_i b encoded
      exact decide_eq_true (encode_ne_constant notNegative notSmall encoded).1
    · rfl
  rw [ofInt_direct notNegative notSmall]
  simp only [integer?, Opcode.smallInt?_data direct (List.length_pos_iff.mpr nonempty),
    Opcode.isPush_data direct, canonical, and_self, if_true, Number.decode_encode short]
  rfl

/-- Numbers are read back from the tokens that push them, except for -1. -/
theorem integer?_ofInt {n : Int64} {limit : Nat}
    (short : (Number.encode n.toInt).length ≤ limit) :
    (ofInt n).integer? limit = if n = -1 then none else some n := by
  by_cases negative : n = -1
  · rw [if_pos negative, negative]
    rfl
  · rw [if_neg negative]
    by_cases small : 0 ≤ n.toInt ∧ n.toInt ≤ 16
    · exact integer?_small limit small.1 small.2
    · exact integer?_direct negative small short

end Token

end LockingScript
