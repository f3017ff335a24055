import LockingScript.Proofs.Number.Minimal
import LockingScript.Proofs.Script.Growth
import LockingScript.Proofs.Token.Shape

/-!
# The smallest push

Data is put on the stack by an opcode that stands for it, or by a push whose opcode and length
prefix leave room for its length. No token for the data is smaller than the one that is chosen to
push it, and none of the others is as small.
-/

namespace LockingScript

namespace Opcode

theorem constant?_cases {op : Opcode} {n : Int} (constant : op.constant? = some n) :
    op = negativeOne ∧ n = -1 ∨ ∃ k ≤ 16, op = ofSmallInt k ∧ n = k := by
  unfold constant? at constant
  split at constant
  · rename_i minus
    exact .inl ⟨minus, (Option.some.inj constant).symm⟩
  · obtain ⟨k, small, rfl⟩ := Option.map_eq_some_iff.mp constant
    obtain ⟨rfl, range⟩ := ofSmallInt_of_smallInt? small
    exact .inr ⟨k, range, rfl, rfl⟩

end Opcode

namespace Token

/-- The opcodes for 1 to 16 put the byte of their number on the stack. -/
theorem pushed?_ofSmallInt {k : Nat} (pos : 0 < k) (range : k ≤ 16) :
    (Token.mk (.ofSmallInt k) []).pushed? = some [UInt8.ofNat k] := by
  have every : ∀ k < 17, 0 < k → ¬ (Opcode.ofSmallInt k).IsPush ∧
      Number.IsMinimal [UInt8.ofNat k] ∧ Number.integer [UInt8.ofNat k] = k := by decide
  obtain ⟨noPush, minimal, worth⟩ := every k (by omega) pos
  have encoded := Number.encode_integer minimal
  rw [worth] at encoded
  simp only [pushed?, if_neg noPush, Opcode.constant?_ofSmallInt range, Option.map_some, encoded]

theorem ofData_smallInt {k : Nat} (range : k ≤ 16) :
    ofData [UInt8.ofNat k] = ⟨.ofSmallInt k, []⟩ := by
  have every : ∀ k < 17, ofData [UInt8.ofNat k] = ⟨.ofSmallInt k, []⟩ := by decide
  exact every k (by omega)

theorem pushed?_negativeOne : (Token.mk .negativeOne []).pushed? = some [0x81] := by
  have encoded := Number.encode_integer (b := [0x81]) (by decide)
  exact congrArg some encoded

variable {t : Token} {data : Bytes}

/-- An opcode that stands for the data is chosen to push it. -/
theorem eq_ofData_of_constant (wellFormed : t.WellFormed) (noPush : ¬ t.opcode.IsPush)
    (pushes : t.pushed? = some data) : t = ofData data := by
  obtain ⟨n, constant, -⟩ : ∃ n, t.opcode.constant? = some n ∧ Number.encode n = data := by
    simpa [pushed?, noPush] using pushes
  have plain : t = ⟨t.opcode, []⟩ :=
    eq_of_fixed_zero wellFormed rfl (Opcode.lengthRule_of_constant? constant)
  rw [plain] at pushes ⊢
  rcases Opcode.constant?_cases constant with ⟨minus, -⟩ | ⟨k, range, opcode, -⟩
  · rw [minus, pushed?_negativeOne, Option.some.injEq] at pushes
    rw [minus, ← pushes]
    rfl
  · have pos : 0 < k := by
      apply Nat.pos_of_ne_zero
      rintro rfl
      exact noPush (by rw [opcode]; decide)
    rw [opcode, pushed?_ofSmallInt pos range, Option.some.injEq] at pushes
    rw [opcode, ← pushes, ofData_smallInt range]

/-- Data that no opcode stands for is pushed by the opcode for its length. -/
theorem ofData_of_not_hasConstant (other : ¬ HasConstant data) :
    ofData data = ⟨.forLength data.length, data⟩ := by
  rw [hasConstant_iff, Option.not_isSome_iff_eq_none] at other
  exact ofData_of_noConstant other

/-- No push has a smaller opcode and prefix than the length of its data asks for, and only the one
that is chosen for the length has none larger. -/
theorem headerSize_le (wellFormed : t.WellFormed) (push : t.opcode.IsPush) :
    headerSize t.data.length ≤ 1 + t.opcode.prefixWidth ∧
      (headerSize t.data.length = 1 + t.opcode.prefixWidth →
        t.opcode = .forLength t.data.length) := by
  obtain ⟨op, data⟩ := t
  rcases Opcode.isPush_cases push with ⟨n, direct, rfl⟩ | counted
  · obtain rfl : data.length = n :=
      length_data_of_fixed wellFormed (Opcode.lengthRule_data direct)
    simp [headerSize, direct, Opcode.prefixWidth, Opcode.lengthRule_data direct, Opcode.forLength]
  · rcases counted with rfl | rfl | rfl
    · have fits : data.length < 256 ^ 1 := wellFormed
      have width : Opcode.pushData1.prefixWidth = 1 := rfl
      grind [headerSize, Opcode.forLength]
    · have fits : data.length < 256 ^ 2 := wellFormed
      have width : Opcode.pushData2.prefixWidth = 2 := rfl
      grind [headerSize, Opcode.forLength]
    · have width : Opcode.pushData4.prefixWidth = 4 := rfl
      grind [headerSize, Opcode.forLength]

theorem ofData_le_of_isPush (wellFormed : t.WellFormed) (push : t.opcode.IsPush) :
    (ofData t.data).size ≤ t.size ∧ (t.size = (ofData t.data).size → t = ofData t.data) := by
  obtain ⟨least, unique⟩ := headerSize_le wellFormed push
  rw [size_ofData, pushSize, size]
  obtain ⟨op, data⟩ := t
  by_cases constant : HasConstant data
  · rw [if_pos constant]
    refine ⟨by omega, ?_⟩
    intro (single : 1 + op.prefixWidth + data.length = 1)
    -- A push of any data takes more than one byte.
    obtain rfl : data = [] := List.eq_nil_of_length_eq_zero (by omega)
    obtain rfl : op = .forLength 0 := unique single.symm
    rfl
  · rw [if_neg constant, ofData_of_not_hasConstant constant]
    refine ⟨by omega, ?_⟩
    intro same
    rw [← unique (by omega)]

/-- Of all tokens for the data, the one that is chosen to push it is the only one of its size, and
none is smaller. -/
theorem ofData_smallest (wellFormed : t.WellFormed) (pushes : t.pushed? = some data) :
    (ofData data).size ≤ t.size ∧ (t.size = (ofData data).size → t = ofData data) := by
  by_cases push : t.opcode.IsPush
  · obtain rfl : t.data = data := by simpa [pushed?, push] using pushes
    exact ofData_le_of_isPush wellFormed push
  · rw [← eq_ofData_of_constant wellFormed push pushes]
    exact ⟨Nat.le_refl _, fun _ => rfl⟩

end Token

namespace Script

/-- Data that is not too long for a push is pushed onto an empty script by one token. If the data is
a single zero byte this is the opcode for the empty string, and for all other data it is the
smallest token that puts the data on the stack, of which there is one. -/
theorem tokenize_push_smallest {data : Bytes} (fits : data.length ≤ 2048) :
    ∃ t : Token, empty.apply (.push data) = .ok ⟨t.bytes⟩ ∧ tokenize 0 t.bytes = .ok [t] ∧
      (data = [0] → t = ⟨.zero, []⟩) ∧
      (data ≠ [0] → t.pushed? = some data ∧
        ∀ u : Token, u.WellFormed → u.pushed? = some data →
          t.size ≤ u.size ∧ (u.size = t.size → u = t)) := by
  obtain ⟨wellFormed, -⟩ := Step.writes_push (show data.length ≤ maxElementSize from fits)
  refine ⟨Token.ofData data, empty_apply_push fits, tokenize_bytes wellFormed, ?_, ?_⟩
  · rintro rfl
    rfl
  · intro other
    exact ⟨Token.pushed?_ofData other, fun _ => Token.ofData_smallest⟩

/-- The least data that needs a length prefix. A wider prefix would do, but not as well. -/
theorem tokenize_push_smallest_prefixed :
    (List.replicate 76 (0x07 : UInt8)).length ≤ 2048 ∧
      List.replicate 76 (0x07 : UInt8) ≠ [0] ∧
      (Token.mk .pushData2 (List.replicate 76 0x07)).WellFormed ∧
      (Token.mk .pushData2 (List.replicate 76 0x07)).pushed? = some (List.replicate 76 0x07) ∧
      ∃ t : Token, empty.apply (.push (List.replicate 76 0x07)) = .ok ⟨t.bytes⟩ ∧
        t.size < (Token.mk .pushData2 (List.replicate 76 0x07)).size := by
  have fits : (List.replicate 76 (0x07 : UInt8)).length ≤ 2048 := by decide
  have other : List.replicate 76 (0x07 : UInt8) ≠ [0] := by decide
  have formed : (Token.mk .pushData1 (List.replicate 76 0x07)).WellFormed := by decide
  obtain ⟨t, pushed, -, -, smallest⟩ := tokenize_push_smallest fits
  obtain ⟨least, -⟩ := (smallest other).2 _ formed rfl
  exact ⟨fits, other, by decide, rfl, t, pushed, Nat.lt_of_le_of_lt least (by decide)⟩

end Script

end LockingScript
