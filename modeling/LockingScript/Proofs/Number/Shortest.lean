import LockingScript.Proofs.Number.Minimal
import Mathlib.Logic.ExistsUnique

/-!
# Minimal is shortest

A number's bytes are as many as its encoding has, or more. A last byte that is not needed for the
sign leaves the magnitude as it is without it, so bytes that are not minimal are more. Minimal bytes
are thus the shortest ones of their number, and there is one choice of them.
-/

namespace LockingScript.Number

/-- A last byte that holds nothing but the sign is no part of the magnitude. -/
theorem natAbs_integer_concat {last : UInt8} (bare : last &&& 0x7f = 0) (front : Bytes) :
    (integer (front ++ [last])).natAbs = LittleEndian.decode front := by
  rw [natAbs_integer, withoutSign_concat, bare, LittleEndian.decode_append]
  simp [LittleEndian.decode]

/-- The last byte of bytes that are not minimal changes nothing but the sign. -/
theorem natAbs_integer_of_not_minimal {front : Bytes} {last : UInt8}
    (loose : ¬ IsMinimal (front ++ [last])) :
    (integer (front ++ [last])).natAbs = (integer front).natAbs := by
  have bare : last &&& 0x7f = 0 := by
    by_contra holds
    exact loose (isMinimal_concat_of_ne holds)
  rw [natAbs_integer_concat bare, natAbs_integer]
  rcases List.eq_nil_or_concat front with rfl | ⟨front, before, rfl⟩
  · rfl
  · rw [List.concat_eq_append, List.append_assoc, List.singleton_append,
      isMinimal_concat_concat, not_or, not_not, not_not] at loose
    have whole := rest_or_sign before
    rw [loose.2, UInt8.or_zero] at whole
    rw [List.concat_eq_append, withoutSign_concat, whole]

/-- Bytes are at least as many as the encoding of a number of their magnitude has. -/
theorem length_encode_le_of_natAbs {n : Int} {b : Bytes} (worth : n.natAbs = (integer b).natAbs) :
    (encode n).length ≤ b.length := by
  by_cases empty : b = []
  · obtain rfl : n = 0 := by
      rw [empty] at worth
      exact Int.natAbs_eq_zero.mp worth
    rw [encode_zero]
    exact Nat.zero_le _
  · rw [length_encode_le_iff (List.length_pos_iff.mpr empty), worth]
    exact natAbs_integer_lt empty

theorem isMinimal_iff_shortest {b : Bytes} :
    IsMinimal b ↔ ∀ c : Bytes, c.length < b.length → integer c ≠ integer b := by
  constructor
  · intro minimal c shorter same
    have length := length_encode_le_of_natAbs (congrArg Int.natAbs same.symm)
    rw [encode_integer minimal] at length
    exact absurd shorter (Nat.not_lt_of_le length)
  · intro shortest
    by_contra loose
    rcases List.eq_nil_or_concat b with rfl | ⟨front, last, rfl⟩
    · exact loose trivial
    · rw [List.concat_eq_append] at loose shortest
      -- The encoding of the same number makes do without the last byte.
      apply shortest (encode (integer (front ++ [last]))) ?_ (integer_encode _)
      rw [List.length_append]
      exact Nat.lt_succ_of_le (length_encode_le_of_natAbs (natAbs_integer_of_not_minimal loose))

theorem value_eq_iff {b c : Bytes} (first : b.length ≤ 8) (second : c.length ≤ 8) :
    value b = value c ↔ integer b = integer c := by
  rw [← Int64.toInt_inj, toInt_value first, toInt_value second]

/-- Up to eight bytes pass the check exactly when no fewer bytes are read as the same number. Of the
bytes that are read as a number, if there are any, one choice passes it. -/
theorem checkMinimal_iff_shortest :
    (∀ b : Bytes, b.length ≤ 8 → ∃ n, decodeLoose 8 b = .ok n ∧
      (checkMinimal b = .ok () ↔
        ∀ c : Bytes, c.length < b.length → decodeLoose 8 c ≠ .ok n)) ∧
    ∀ n : Int64, (∃ b : Bytes, b.length ≤ 8 ∧ decodeLoose 8 b = .ok n) →
      ∃! b : Bytes, b.length ≤ 8 ∧ decodeLoose 8 b = .ok n ∧ checkMinimal b = .ok () := by
  simp only [checkMinimal_eq_ok_iff]
  constructor
  · intro b short
    refine ⟨value b, decodeLoose_eq_ok_iff.mpr ⟨short, rfl⟩, isMinimal_iff_shortest.trans ?_⟩
    apply forall_congr'
    intro c
    apply imp_congr_right
    intro shorter
    have fits : c.length ≤ 8 := Nat.le_trans (Nat.le_of_lt shorter) short
    rw [ne_eq, ne_eq, decodeLoose_eq_ok_iff, and_iff_right fits, value_eq_iff fits short]
  · rintro n ⟨b, short, read⟩
    obtain ⟨-, rfl⟩ := decodeLoose_eq_ok_iff.mp read
    have fits : (encode (integer b)).length ≤ 8 :=
      Nat.le_trans (length_encode_le_of_natAbs rfl) short
    have worth : value (encode (integer b)) = value b :=
      (value_eq_iff fits short).mpr (integer_encode _)
    refine ⟨encode (integer b), ⟨fits, decodeLoose_eq_ok_iff.mpr ⟨fits, worth⟩,
      isMinimal_encode _⟩, ?_⟩
    rintro c ⟨fits', read', minimal⟩
    obtain ⟨-, same⟩ := decodeLoose_eq_ok_iff.mp read'
    rw [← encode_integer minimal, (value_eq_iff fits' short).mp same]

/-- Minus one with its sign in a byte of its own, where it is not needed. -/
theorem checkMinimal_iff_shortest_negativeOne :
    [0x01, (0x80 : UInt8)].length ≤ 8 ∧ decodeLoose 8 [0x01, 0x80] = .ok (-1) ∧
      decodeLoose 8 [0x81] = .ok (-1) ∧ checkMinimal [0x01, 0x80] ≠ .ok () ∧
      ∃! b : Bytes, b.length ≤ 8 ∧ decodeLoose 8 b = .ok (-1) ∧ checkMinimal b = .ok () := by
  have short : [0x01, (0x80 : UInt8)].length ≤ 8 := by decide
  have loose : decodeLoose 8 [0x01, 0x80] = .ok (-1) := by decide
  have tight : decodeLoose 8 [0x81] = .ok (-1) := by decide
  obtain ⟨n, read, shortest⟩ := checkMinimal_iff_shortest.1 _ short
  obtain rfl : -1 = n := Except.ok.inj (loose.symm.trans read)
  refine ⟨short, loose, tight, ?_, checkMinimal_iff_shortest.2 _ ⟨_, short, loose⟩⟩
  intro minimal
  exact shortest.mp minimal [0x81] (by decide) tight

end LockingScript.Number
