import LockingScript.Proofs.Script.Build
import LockingScript.Proofs.Token.Shape

/-!
# Canonical pushes

A push is canonical to the reader of numbers if its opcode is the one for the length of its data and
the data is no single byte up to 16. These are the pushes that a script is built with, and one more:
the byte `0x81` as data, for which a script is built with the opcode for -1.
-/

namespace LockingScript

namespace Token

variable {t : Token}

theorem isCanonical_of_fixed {n : Nat} (rule : t.opcode.lengthRule = .fixed n) :
    t.isCanonical = true ↔ ∀ b, t.data = [b] → 16 < b := by
  simp only [isCanonical, rule]
  split
  · rename_i b single
    simp [single]
  · rename_i several
    simpa using fun b single => absurd single (several b)

/-- A length prefix is canonical if no smaller opcode has room for the length. -/
theorem isCanonical_of_isCounted (wellFormed : t.WellFormed) (counted : t.opcode.IsCounted) :
    t.isCanonical = true ↔ t.opcode = .forLength t.data.length := by
  obtain ⟨op, data⟩ := t
  -- Data that a direct push has room for is never canonical behind a length prefix.
  have notDirect (direct : data.length ≤ 75) : op ≠ .data data.length := by
    rintro rfl
    exact Opcode.not_isCounted_data direct counted
  rcases counted with rfl | rfl | rfl
  · have fits : data.length < 256 ^ 1 := wellFormed
    have rule : Opcode.pushData1.lengthRule = .prefixed 1 := rfl
    simp only [isCanonical, rule, decide_eq_true_eq]
    grind [Opcode.forLength]
  · have fits : data.length < 256 ^ 2 := wellFormed
    have rule : Opcode.pushData2.lengthRule = .prefixed 2 := rfl
    simp only [isCanonical, rule, decide_eq_true_eq]
    grind [Opcode.forLength, Opcode.pushData1, Opcode.pushData2]
  · have rule : Opcode.pushData4.lengthRule = .prefixed 4 := rfl
    simp only [isCanonical, rule, decide_eq_true_eq]
    grind [Opcode.forLength, Opcode.pushData1, Opcode.pushData2, Opcode.pushData4]

theorem isCanonical_iff (wellFormed : t.WellFormed) (push : t.opcode.IsPush) :
    t.isCanonical = true ↔
      t.opcode = .forLength t.data.length ∧ ∀ b, t.data = [b] → 16 < b := by
  rcases Opcode.isPush_cases push with ⟨n, direct, opcode⟩ | counted
  · have rule : t.opcode.lengthRule = .fixed n := by rw [opcode, Opcode.lengthRule_data direct]
    have chosen : t.opcode = .forLength t.data.length := by
      rw [length_data_of_fixed wellFormed rule, Opcode.forLength, if_pos direct, opcode]
    rw [isCanonical_of_fixed rule]
    exact (and_iff_right chosen).symm
  · rw [isCanonical_of_isCounted wellFormed counted]
    refine ⟨fun chosen => ⟨chosen, fun b single => ?_⟩, And.left⟩
    rw [chosen, single] at counted
    exact absurd counted (Opcode.not_isCounted_data (by decide : 1 ≤ 75))

/-- A token pushes its own data as a script is built if its opcode is the one for the length and no
opcode stands for the data. -/
theorem ofData_eq_iff :
    ofData t.data = t ↔
      t.opcode = .forLength t.data.length ∧ ∀ b, t.data = [b] → 16 < b ∧ b ≠ 0x81 := by
  obtain ⟨op, data⟩ := t
  match data with
  | [] => simp [ofData, Opcode.forData?, Opcode.forLength, Opcode.data, Opcode.zero, eq_comm]
  | [b] =>
      by_cases small : b ≤ 16
      · simp [ofData_singleton, small, UInt8.not_lt.mpr small]
      · by_cases minus : b = 0x81
        · simp [ofData_singleton, minus]
        · simp [ofData_singleton, small, minus, UInt8.not_le.mp small, Opcode.forLength, eq_comm]
  | b :: c :: rest => simp [ofData, Opcode.forData?, eq_comm]

/-- The canonical pushes are those that a script is built with, and the byte of -1 as data. -/
theorem isCanonical_iff_ofData (wellFormed : t.WellFormed) (push : t.opcode.IsPush) :
    t.isCanonical = true ↔ ofData t.data = t ∨ t = ⟨.data 1, [0x81]⟩ := by
  rw [isCanonical_iff wellFormed push, ofData_eq_iff]
  constructor
  · rintro ⟨opcode, large⟩
    by_cases minus : t.data = [0x81]
    · right
      obtain ⟨op, data⟩ := t
      obtain rfl : data = [0x81] := minus
      obtain rfl : op = .forLength 1 := opcode
      rfl
    · left
      refine ⟨opcode, fun b single => ⟨large b single, ?_⟩⟩
      rintro rfl
      exact minus single
  · rintro (⟨opcode, large⟩ | rfl)
    · exact ⟨opcode, fun b single => (large b single).1⟩
    · refine ⟨rfl, fun b single => ?_⟩
      cases single
      decide

end Token

namespace Script

/-- Pushing data onto an empty script writes the token that is chosen for the data and no other. -/
theorem empty_apply_push_eq_iff {data : Bytes} {t : Token} (short : data.length ≤ maxElementSize)
    (wellFormed : t.WellFormed) :
    empty.apply (.push data) = .ok ⟨t.bytes⟩ ↔ Token.ofData data = t := by
  rw [empty_apply_push short, Except.ok.injEq, Script.mk.injEq]
  refine ⟨fun same => ?_, congrArg Token.bytes⟩
  have chosen := tokenize_bytes (Step.writes_push short).1
  rw [same, tokenize_bytes wellFormed] at chosen
  cases chosen
  rfl

/-- A push that a script of any version holds is canonical exactly when pushing its data onto an
empty script writes the same bytes, unless it is the byte `0x81` as data. That one is canonical too,
but the opcode for -1 is written for its data. -/
theorem isCanonical_iff_written (version : UInt16) (script : Bytes) {t : Token}
    (held : t ∈ (Reading.ofScript version script).tokens) (push : t.opcode.IsPush)
    (short : t.data.length ≤ 2048) :
    (t ≠ ⟨.data 1, [0x81]⟩ →
      (t.isCanonical = true ↔ empty.apply (.push t.data) = .ok ⟨t.bytes⟩)) ∧
    (t = ⟨.data 1, [0x81]⟩ →
      t.isCanonical = true ∧ empty.apply (.push t.data) = .ok ⟨[0x4f]⟩) := by
  have wellFormed := Reading.wellFormed_of_mem_ofScript held
  have canonical := Token.isCanonical_iff_ofData wellFormed push
  constructor
  · intro other
    rw [canonical, empty_apply_push_eq_iff short wellFormed]
    exact or_iff_left other
  · rintro rfl
    exact ⟨canonical.mpr (.inr rfl), empty_apply_push short⟩

/-- The least data that needs a length prefix, pushed with the smallest one. -/
def prefixedPush : Token := ⟨.pushData1, List.replicate 76 0x07⟩

/-- The push is read from a script that breaks off behind it. -/
theorem isCanonical_iff_written_prefixedPush :
    prefixedPush ∈ (Reading.ofScript 0 (prefixedPush.bytes ++ [0x05])).tokens ∧
      prefixedPush.opcode.IsPush ∧ prefixedPush.data.length ≤ 2048 ∧
      prefixedPush ≠ ⟨.data 1, [0x81]⟩ ∧ prefixedPush.isCanonical = true ∧
      empty.apply (.push prefixedPush.data) = .ok ⟨prefixedPush.bytes⟩ := by
  have wellFormed : prefixedPush.WellFormed := by decide
  have held : prefixedPush ∈ (Reading.ofScript 0 (prefixedPush.bytes ++ [0x05])).tokens := by
    rw [Reading.ofScript_zero, Reading.ofBytes_bytes_append wellFormed]
    exact List.mem_cons_self
  have push : prefixedPush.opcode.IsPush := by decide
  have short : prefixedPush.data.length ≤ 2048 := by decide
  have other : prefixedPush ≠ ⟨.data 1, [0x81]⟩ := by decide
  have canonical : prefixedPush.isCanonical = true := by decide
  have agree := (isCanonical_iff_written 0 _ held push short).1 other
  exact ⟨held, push, short, other, canonical, agree.mp canonical⟩

theorem isCanonical_without_written :
    ¬ ∀ (version : UInt16) (script : Bytes),
      ∀ t ∈ (Reading.ofScript version script).tokens, t.opcode.IsPush → t.data.length ≤ 2048 →
        (t.isCanonical = true ↔ empty.apply (.push t.data) = .ok ⟨t.bytes⟩) := by
  intro agree
  have wellFormed : (Token.mk (.data 1) [0x81]).WellFormed := by decide
  have held : ⟨.data 1, [0x81]⟩ ∈
      (Reading.ofScript 0 ((Token.mk (.data 1) [0x81]).bytes ++ [])).tokens := by
    rw [Reading.ofScript_zero, Reading.ofBytes_bytes_append wellFormed]
    exact List.mem_cons_self
  have written := (agree 0 _ _ held (by decide) (by decide)).mp (by decide)
  rw [empty_apply_push_eq_iff (by decide) wellFormed] at written
  revert written
  decide

end Script

end LockingScript
