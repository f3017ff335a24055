import LockingScript.Proofs.Token.Push
import LockingScript.Proofs.Token.Rendering

/-!
# Shapes of tokens

A well-formed token pushes a number by its opcode, or data whose length stands in the opcode or in a
prefix, or it pushes nothing. How a token is shown depends on nothing but which of these it is.
-/

namespace LockingScript

namespace Opcode

/-- Whether a length prefix stands between the opcode and its data. -/
def IsCounted (op : Opcode) : Prop := op = .pushData1 ∨ op = .pushData2 ∨ op = .pushData4

instance (op : Opcode) : Decidable op.IsCounted := inferInstanceAs (Decidable (_ ∨ _ ∨ _))

theorem IsCounted.isPush {op : Opcode} (counted : op.IsCounted) : op.IsPush := by
  rcases counted with rfl | rfl | rfl <;> decide

theorem IsCounted.constant? {op : Opcode} (counted : op.IsCounted) : op.constant? = none := by
  rcases counted with rfl | rfl | rfl <;> rfl

theorem not_isCounted_data {n : Nat} (direct : n ≤ 75) : ¬ (data n).IsCounted := by
  intro counted
  have rule := lengthRule_data direct
  rcases counted with same | same | same <;>
    · rw [same] at rule
      cases rule

theorem isPush_cases {op : Opcode} (push : op.IsPush) :
    (∃ n ≤ 75, op = data n) ∨ op.IsCounted := by
  have bound : op.byte.toNat ≤ 78 := UInt8.le_iff_toNat_le.mp push
  by_cases direct : op.byte.toNat ≤ 75
  · exact .inl ⟨op.byte.toNat, direct, by rw [data, UInt8.ofNat_toNat]⟩
  · have byte {b : UInt8} (same : op.byte.toNat = b.toNat) : op = ⟨b⟩ :=
      congrArg Opcode.mk (UInt8.toNat_inj.mp same)
    obtain one | two | four :
        op.byte.toNat = 76 ∨ op.byte.toNat = 77 ∨ op.byte.toNat = 78 := by omega
    · exact .inr (.inl (byte one))
    · exact .inr (.inr (.inl (byte two)))
    · exact .inr (.inr (.inr (byte four)))

theorem constant?_data {n : Nat} (direct : n ≤ 75) (pos : 0 < n) : (data n).constant? = none := by
  have every : ∀ n < 76, 0 < n → (data n).constant? = none := by decide
  exact every n (by omega) pos

/-- A direct push is named after the length of its data. -/
theorem shortName_data {n : Nat} (direct : n ≤ 75) (pos : 0 < n) :
    (data n).shortName = "DATA_" ++ toString n := by
  have every : ∀ n < 76, 0 < n → (data n).shortName = "DATA_" ++ toString n := by decide +kernel
  exact every n (by omega) pos

end Opcode

namespace Token

inductive Shape : Token → Prop where
  /-- A number, pushed by the opcode alone. -/
  | constant {op : Opcode} {n : Int} : op.constant? = some n → Shape ⟨op, []⟩
  /-- Data, pushed by an opcode that says how long it is. -/
  | direct {data : Bytes} : data ≠ [] → data.length ≤ 75 → Shape ⟨.data data.length, data⟩
  /-- Data, pushed with a length prefix. -/
  | counted {op : Opcode} {data : Bytes} : op.IsCounted → Shape ⟨op, data⟩
  /-- An opcode that pushes nothing. -/
  | plain {op : Opcode} : op.constant? = none → ¬ op.IsPush → Shape ⟨op, []⟩

theorem shape {t : Token} (wellFormed : t.WellFormed) : t.Shape := by
  obtain ⟨op, data⟩ := t
  cases number : op.constant? with
  | some n =>
      rw [eq_of_fixed_zero wellFormed rfl (Opcode.lengthRule_of_constant? number)]
      exact .constant number
  | none =>
      by_cases push : op.IsPush
      · rcases Opcode.isPush_cases push with ⟨n, bound, rfl⟩ | counted
        · obtain rfl : data.length = n :=
            length_data_of_fixed wellFormed (Opcode.lengthRule_data bound)
          refine .direct ?_ bound
          rintro rfl
          cases number
        · exact .counted counted
      · rw [eq_of_fixed_zero wellFormed rfl (Opcode.lengthRule_of_not_isPush push)]
        exact .plain number push

section Words

variable {op : Opcode} {data : Bytes} {style : PushStyle}

theorem words_constant {n : Int} (number : op.constant? = some n) :
    (Token.mk op data).words style = [toString n] := by
  simp only [words, number]

theorem words_plain (noConstant : op.constant? = none) (noPush : ¬ op.IsPush) :
    (Token.mk op data).words style = [op.shortName] := by
  simp only [words, noConstant, if_neg noPush]

/-- A direct push is shown in the same way in both styles. -/
theorem words_direct (holds : data ≠ []) (short : data.length ≤ 75) :
    (Token.mk (.data data.length) data).words style =
      ["DATA_" ++ toString data.length, "0x" ++ Hex.encode data] := by
  have pos : 0 < data.length := List.length_pos_iff.mpr holds
  have push : (Opcode.data data.length).IsPush := Opcode.isPush_data short
  simp only [words, Opcode.constant?_data short pos, if_pos push]
  cases style with
  | full =>
      simp [pushWords, lengthWords, dataWord, Opcode.lengthRule_data short,
        Opcode.shortName_data short pos]
  | compressed => simp [pushWords, dataWord, holds, short]

theorem words_counted (counted : op.IsCounted) :
    (Token.mk op data).words style = (Token.mk op data).pushWords style := by
  simp only [words, counted.constant?, if_pos counted.isPush]

end Words

end Token

end LockingScript
