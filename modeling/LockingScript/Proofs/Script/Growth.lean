import LockingScript.Proofs.Script.Run
import Mathlib.Data.Nat.Size

/-!
# How a script grows

A step alone decides how many bytes it appends, and whether the script has room for them decides
whether it is refused. A step that is refused leaves the script as it was, so that no run of steps
takes a script over the limit.
-/

namespace LockingScript

/-- A number other than zero takes its bits and one more for the sign. -/
theorem Number.length_encode {n : Int} (nonzero : n ≠ 0) :
    (encode n).length = n.natAbs.size / 8 + 1 := by
  have bits {k : Nat} (pos : 0 < k) : (encode n).length ≤ k ↔ n.natAbs.size ≤ 8 * k - 1 := by
    rw [length_encode_le_iff pos, Nat.size_le]
  have enough : (encode n).length ≤ n.natAbs.size / 8 + 1 :=
    (bits (Nat.succ_pos _)).mpr (by omega)
  have needed : n.natAbs.size / 8 < (encode n).length := by
    rcases Nat.eq_zero_or_pos (n.natAbs.size / 8) with none | some
    · rw [none]
      exact List.length_pos_of_ne_nil (encode_ne_nil nonzero)
    · apply Nat.lt_of_not_le
      intro short
      have few := (bits some).mp short
      omega
  omega

namespace Token

/-- Whether an opcode stands for the data: there is none, or it is a single byte that is a number
from -1 to 16. A byte that is zero counts as no data. -/
def HasConstant (data : Bytes) : Prop := data.length ≤ 1 ∧ ∀ b ∈ data, b ≤ 16 ∨ b = 0x81

instance (data : Bytes) : Decidable (HasConstant data) := inferInstanceAs (Decidable (_ ∧ _))

/-- The bytes of the opcode and the length prefix in front of so much data. -/
def headerSize (length : Nat) : Nat :=
  if length ≤ 75 then 1 else if length ≤ 0xff then 2 else if length ≤ 0xffff then 3 else 5

/-- The bytes that a push of the data takes. -/
def pushSize (data : Bytes) : Nat :=
  if HasConstant data then 1 else headerSize data.length + data.length

/-- The bytes that a push of the number takes. -/
def numeralSize (n : Int) : Nat :=
  if -1 ≤ n ∧ n ≤ 16 then 1 else 1 + (n.natAbs.size / 8 + 1)

theorem size_forLength (data : Bytes) :
    (Token.mk (.forLength data.length) data).size = headerSize data.length + data.length := by
  unfold Opcode.forLength headerSize
  split
  · rename_i direct
    rw [size_direct direct]
  · split
    · rfl
    · split <;> rfl

theorem hasConstant_iff {data : Bytes} : HasConstant data ↔ (Opcode.forData? data).isSome := by
  match data with
  | [] => exact iff_of_true ⟨Nat.zero_le 1, List.forall_mem_nil _⟩ rfl
  | [b] =>
      rw [HasConstant, List.forall_mem_singleton, Opcode.forData?_singleton]
      by_cases small : b ≤ 16
      · simp [small]
      · by_cases minus : b = 0x81 <;> simp [small, minus]
  | b :: c :: rest =>
      exact iff_of_false (fun constant => absurd constant.1 (by simp)) Bool.false_ne_true

theorem size_ofData (data : Bytes) : (ofData data).size = pushSize data := by
  cases stands : Opcode.forData? data with
  | some op =>
      have constant : HasConstant data := hasConstant_iff.mpr (by rw [stands]; rfl)
      rw [pushSize, if_pos constant, ofData_of_constant stands,
        size_plain (Opcode.lengthRule_of_forData? stands)]
  | none =>
      have noConstant : ¬ HasConstant data := by simp [hasConstant_iff, stands]
      rw [pushSize, if_neg noConstant, ofData_of_noConstant stands, size_forLength]

theorem size_ofInt (n : Int64) : (ofInt n).size = numeralSize n.toInt := by
  by_cases negative : n = -1
  · subst negative
    decide
  · have other : n.toInt ≠ -1 := fun same => negative (Int64.toInt_inj.mp same)
    by_cases small : 0 ≤ n.toInt ∧ n.toInt ≤ 16
    · rw [ofInt_small small.1 small.2, size_plain (Opcode.lengthRule_ofSmallInt (by omega)),
        numeralSize, if_pos (by omega)]
    · have direct := Nat.le_trans (Number.length_encode_le n) (by decide : 9 ≤ 75)
      rw [ofInt_direct negative small, size_direct direct, Number.length_encode (by omega),
        numeralSize, if_neg (by omega)]

end Token

namespace Step

/-- The number of bytes that the step appends to any script. -/
def growth : Step → Nat
  | .opcode _ => 1
  | .raw bytes => bytes.length
  | .push data => Token.pushSize data
  | .int n => Token.numeralSize n.toInt

/-- Whether the step pushes more data than one push may hold. -/
def IsOversized : Step → Prop
  | .push data => maxElementSize < data.length
  | _ => False

instance : (step : Step) → Decidable step.IsOversized
  | .push data => inferInstanceAs (Decidable (maxElementSize < data.length))
  | .opcode _ | .raw _ | .int _ => isFalse id

variable {step : Step} {added : Bytes}

theorem exists_encoding (allowed : ¬ step.IsOversized) : ∃ added, step.encoding = .ok added := by
  cases step with
  | opcode op => exact ⟨[op.byte], rfl⟩
  | raw bytes => exact ⟨bytes, rfl⟩
  | push data => exact ⟨(Token.ofData data).bytes, if_neg allowed⟩
  | int n => exact ⟨(Token.ofInt n).bytes, rfl⟩

theorem length_of_encoding (encoded : step.encoding = .ok added) :
    added.length = step.growth := by
  cases step with
  | opcode op | raw bytes =>
      cases encoded
      rfl
  | push data =>
      rw [encoding] at encoded
      split at encoded
      · cases encoded
      · cases encoded
        rw [Token.length_bytes, Token.size_ofData, growth]
  | int n =>
      cases encoded
      rw [Token.length_bytes, Token.size_ofInt, growth]

end Step

namespace Script

/-- A step that is allowed at all is refused only for want of room. -/
theorem exists_run_eq {step : Step} (allowed : ¬ step.IsOversized) :
    ∃ added : Bytes, added.length = step.growth ∧ ∀ s : Script,
      step.run s =
        if maxScriptSize < s.size + step.growth then
          .error (.scriptTooBig (s.size + step.growth)) s
        else .ok () ⟨s.bytes ++ added⟩ := by
  obtain ⟨added, encoded⟩ := Step.exists_encoding allowed
  have length := Step.length_of_encoding encoded
  refine ⟨added, length, fun s => ?_⟩
  rw [Step.run_appendsAtOnce encoded s, length]

theorem growth_of_apply {s t : Script} {step : Step} (applied : s.apply step = .ok t) :
    t.size ≤ maxScriptSize ∧ ∃ added, t.bytes = s.bytes ++ added ∧ added.length = step.growth := by
  obtain ⟨added, encoded, fits, rfl⟩ := apply_eq_ok_iff.mp applied
  refine ⟨?_, added, rfl, Step.length_of_encoding encoded⟩
  rwa [size, List.length_append]

variable (s : Script)

theorem size_attempt_le (step : Step) : (s.attempt step).size ≤ max s.size maxScriptSize := by
  cases applied : s.apply step with
  | error cause =>
      rw [attempt_of_error applied]
      exact Nat.le_max_left _ _
  | ok t =>
      rw [attempt_of_ok applied]
      exact Nat.le_trans (growth_of_apply applied).1 (Nat.le_max_right _ _)

/-- No run of steps takes a script over the limit, unless it was over the limit before. -/
theorem size_foldl_attempt_le (steps : List Step) :
    (steps.foldl attempt s).size ≤ max s.size maxScriptSize := by
  induction steps generalizing s with
  | nil => exact Nat.le_max_left _ _
  | cons step rest ih =>
      have first := s.size_attempt_le step
      calc (rest.foldl attempt (s.attempt step)).size
        _ ≤ max (s.attempt step).size maxScriptSize := ih _
        _ ≤ max s.size maxScriptSize := Nat.max_le.mpr ⟨first, Nat.le_max_right _ _⟩

/-- A run of steps appends what the steps append that are not refused. -/
theorem exists_growth_of_foldl_attempt (steps : List Step) :
    ∃ added, (steps.foldl attempt s).bytes = s.bytes ++ added ∧
      added.length = ((s.accepted steps).map Step.growth).sum := by
  induction steps generalizing s with
  | nil => exact ⟨[], (List.append_nil _).symm, rfl⟩
  | cons step rest ih =>
      rw [List.foldl_cons]
      cases applied : s.apply step with
      | error cause =>
          rw [attempt_of_error applied, accepted, applied]
          exact ih s
      | ok t =>
          obtain ⟨-, first, grown, length⟩ := growth_of_apply applied
          obtain ⟨later, grownLater, lengthLater⟩ := ih t
          rw [attempt_of_ok applied, accepted, applied]
          refine ⟨first ++ later, ?_, ?_⟩
          · rw [grownLater, grown, List.append_assoc]
          · rw [List.length_append, List.map_cons, List.sum_cons, length, lengthLater]

/-- Only data that is too long for a push, and a step that the script has no room for, is refused,
and the script that a refused step leaves is the one it was given. A run of steps appends what its
steps append, and a script that was empty stays within the limit. -/
theorem atomic_growth :
    (∀ (s : Script) (data : Bytes), maxElementSize < data.length →
      Step.run (.push data) s = .error (.elementTooBig data.length) s) ∧
    (∀ step : Step, ¬ step.IsOversized →
      ∃ added : Bytes, added.length = step.growth ∧ ∀ s : Script,
        step.run s =
          if maxScriptSize < s.size + step.growth then
            .error (.scriptTooBig (s.size + step.growth)) s
          else .ok () ⟨s.bytes ++ added⟩) ∧
    (∀ (s left : Script) (step : Step) (cause : Error),
      step.run s = .error cause left → left = s) ∧
    (∀ (s : Script) (steps : List Step),
      ∃ added, (steps.foldl attempt s).bytes = s.bytes ++ added ∧
        added.length = ((s.accepted steps).map Step.growth).sum) ∧
    ∀ steps : List Step, (steps.foldl attempt empty).size ≤ maxScriptSize := by
  refine ⟨fun s data long => Builder.appendPush_of_tooLong long s, fun step => exists_run_eq,
    fun s left step cause => Step.eq_of_run_eq_error, exists_growth_of_foldl_attempt,
    fun steps => ?_⟩
  calc (steps.foldl attempt empty).size
    _ ≤ max empty.size maxScriptSize := empty.size_foldl_attempt_le steps
    _ = maxScriptSize := Nat.max_eq_right (Nat.zero_le _)

/-- A script with room for 84 bytes more. -/
def nearlyFull : Script := ⟨List.replicate 16300 0x61⟩

theorem atomic_growth_nearlyFull :
    (∃ t, Step.run (.push (List.replicate 82 0x07)) nearlyFull = .ok () t ∧ t.size = 16384) ∧
      Step.run (.push (List.replicate 83 0x07)) nearlyFull =
        .error (.scriptTooBig 16385) nearlyFull ∧
      Step.run (.push (List.replicate 2049 0x07)) nearlyFull =
        .error (.elementTooBig 2049) nearlyFull := by
  obtain ⟨oversized, allowed, -⟩ := atomic_growth
  have size : nearlyFull.size = 16300 := List.length_replicate
  have small : Step.growth (.push (List.replicate 82 0x07)) = 84 := by decide
  have large : Step.growth (.push (List.replicate 83 0x07)) = 85 := by decide
  obtain ⟨added, length, fits⟩ := allowed (.push (List.replicate 82 0x07)) (by decide)
  obtain ⟨_, _, tooBig⟩ := allowed (.push (List.replicate 83 0x07)) (by decide)
  have accepted := fits nearlyFull
  have rejected := tooBig nearlyFull
  rw [size, small, if_neg (by decide)] at accepted
  rw [size, large, if_pos (by decide)] at rejected
  have long : maxElementSize < (List.replicate 2049 (0x07 : UInt8)).length := by
    rw [List.length_replicate]
    decide
  refine ⟨⟨_, accepted, ?_⟩, rejected, ?_⟩
  · rw [Script.size, List.length_append, length, small]
    exact congrArg (· + 84) size
  · have error := oversized nearlyFull _ long
    rwa [List.length_replicate] at error

end Script

end LockingScript
