import LockingScript.Proofs.Output.Exclusion
import LockingScript.Proofs.Output.Payment

/-!
# Outputs that carry data

Data behind `RETURN` is pushed by one token. The reader of null data accepts every token that pushes
data or a number from 0 to 16, but not the opcode for -1, which pushes the byte `0x81`.
-/

namespace LockingScript

namespace Form

/-- The tokens of `RETURN` and a push. -/
def returningTokens (data : Bytes) : List Token := [⟨.opReturn, []⟩, .ofData data]

theorem isNullData_returningTokens {data : Bytes} (short : data.length ≤ maxNullDataSize)
    (other : data ≠ [0x81]) : isNullData (returningTokens data) = true := by
  have pushes := Token.pushes_ofData other
  have length := Nat.le_trans (Token.length_data_ofData_le data) short
  simp only [returningTokens, isNullData, Bool.and_eq_true, Bool.or_eq_true, decide_eq_true_eq]
  exact ⟨⟨trivial, pushes⟩, length⟩

theorem ofTokens_returningTokens {data : Bytes} (short : data.length ≤ maxNullDataSize)
    (policy : Policy) :
    ofTokens policy (returningTokens data) = if data = [0x81] then nonStandard else nullData := by
  split
  · rename_i negative
    subst negative
    obtain ⟨_ | _⟩ := policy <;> rfl
  · rename_i other
    exact ofTokens_eq_of_readFrom (isNullData_returningTokens short other) (by simp)

end Form

namespace Script

open Form

theorem writes_returningTokens {data : Bytes} (short : data.length ≤ maxElementSize) :
    List.Forall₂ Step.Writes [.opcode .opReturn, .push data] (returningTokens data) :=
  .cons (Step.writes_opcode rfl) <| .cons (Step.writes_push short) .nil

theorem returning_eq {data : Bytes} (short : data.length ≤ maxElementSize) :
    returning data = .ok ⟨(returningTokens data).flatMap Token.bytes⟩ := by
  apply build_of_writes (writes_returningTokens short)
  have first : (Token.mk .opReturn []).size = 1 := rfl
  have second := Token.size_ofData_le data
  simp only [returningTokens, List.map_cons, List.map_nil, List.sum_cons, List.sum_nil, first]
  rw [maxElementSize] at short
  rw [maxScriptSize]
  omega

theorem tokenize_returning {data : Bytes} (short : data.length ≤ maxElementSize) :
    tokenize 0 ((returningTokens data).flatMap Token.bytes) = .ok (returningTokens data) :=
  tokenize_of_writes (writes_returningTokens short)

theorem nullData_of_short {data : Bytes} (short : data.length ≤ maxNullDataSize) :
    nullData data = .ok ⟨(returningTokens data).flatMap Token.bytes⟩ := by
  rw [nullData, if_neg (Nat.not_lt_of_le short),
    returning_eq (Nat.le_trans short (by decide))]

/-- Data that is not too long is carried by a script, and the script is recognised as null data,
unless the data is the byte that the opcode for -1 pushes. -/
theorem classify_nullData (data : Bytes) (policy : Policy) :
    (256 < data.length → nullData data = .error (.nullDataTooLong data.length)) ∧
      (data.length ≤ 256 →
        ∃ script, nullData data = .ok script ∧
          classify 0 script.bytes policy =
            ⟨if data = [0x81] then .nonStandard else .nullData, none⟩ ∧
          payees 0 script.bytes policy =
            .ok ⟨if data = [0x81] then .nonStandard else .nullData, [], 0⟩) := by
  constructor
  · intro long
    exact if_pos long
  · intro short
    have read := tokenize_returning (Nat.le_trans short (by decide : 256 ≤ maxElementSize))
    have form := ofTokens_returningTokens short policy
    refine ⟨_, nullData_of_short short, ?_, ?_⟩
    · rw [classify_of_tokenize read, form]
      split <;> rfl
    · refine payees_eq_ok_iff.mpr ⟨_, read, ?_⟩
      rw [form]
      split <;> rfl

/-- Data at the limit is pushed with a length prefix of two bytes, and one byte more is refused. -/
theorem classify_nullData_limit :
    (256 < (List.replicate 257 (0x42 : UInt8)).length ∧
        nullData (List.replicate 257 0x42) = .error (.nullDataTooLong 257)) ∧
      (List.replicate 256 (0x42 : UInt8)).length ≤ 256 ∧
        ∃ script, nullData (List.replicate 256 0x42) = .ok script ∧
          classify 0 script.bytes .withTreasury = ⟨.nullData, none⟩ ∧
          payees 0 script.bytes .withTreasury = .ok ⟨.nullData, [], 0⟩ := by
  have longLength : (List.replicate 257 (0x42 : UInt8)).length = 257 := List.length_replicate
  have shortLength : (List.replicate 256 (0x42 : UInt8)).length = 256 := List.length_replicate
  have long : 256 < (List.replicate 257 (0x42 : UInt8)).length := by
    rw [longLength]
    decide
  have refused := (classify_nullData (List.replicate 257 0x42) .withTreasury).1 long
  have other : List.replicate 256 (0x42 : UInt8) ≠ [0x81] := by
    intro same
    have lengths := congrArg List.length same
    rw [shortLength] at lengths
    exact absurd lengths (by decide)
  obtain ⟨script, made, found, paid⟩ :=
    (classify_nullData (List.replicate 256 0x42) .withTreasury).2 (Nat.le_of_eq shortLength)
  rw [longLength] at refused
  rw [if_neg other] at found paid
  exact ⟨⟨long, refused⟩, Nat.le_of_eq shortLength, script, made, found, paid⟩

theorem classify_nullData_negativeOne :
    ¬ ∀ (data : Bytes) (policy : Policy),
      (256 < data.length → nullData data = .error (.nullDataTooLong data.length)) ∧
        (data.length ≤ 256 →
          ∃ script, nullData data = .ok script ∧
            classify 0 script.bytes policy = ⟨.nullData, none⟩ ∧
            payees 0 script.bytes policy = .ok ⟨.nullData, [], 0⟩) := by
  intro recognised
  obtain ⟨script, made, found, -⟩ := (recognised [0x81] .withoutTreasury).2 (by decide)
  have short : ([0x81] : Bytes).length ≤ maxNullDataSize := by decide
  rw [nullData_of_short short, Except.ok.injEq] at made
  rw [← made, classify_of_tokenize (tokenize_returning (by decide)),
    ofTokens_returningTokens short, if_pos rfl] at found
  cases found

end Script

end LockingScript
