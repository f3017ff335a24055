import LockingScript.Proofs.Script.Build

/-!
# What a run of steps leaves behind

Steps are attempted one after the other, and a step that is refused leaves no trace. If each step
writes a token of its own, the script is read back as one token for each step that is not refused,
in the order of the steps, and every token says what its step says.
-/

namespace LockingScript

theorem Opcode.constant?_ofSmallInt {n : Nat} (small : n ≤ 16) :
    (ofSmallInt n).constant? = some (n : Int) := by
  have every : ∀ n < 17, (ofSmallInt n).constant? = some (n : Int) := by decide
  exact every n (by omega)

/-- Data is put on the stack by the token that pushes it, but a single zero byte is not. -/
theorem Token.pushed?_ofData {data : Bytes} (other : data ≠ [0]) :
    (ofData data).pushed? = some data := by
  match data with
  | [] => rfl
  | [b] =>
      have every : ∀ n < 256, [UInt8.ofNat n] ≠ [0] →
          (ofData [UInt8.ofNat n]).pushed? = some [UInt8.ofNat n] := by decide +kernel
      exact Bytes.forall_byte (P := fun b => [b] ≠ [0] → (ofData [b]).pushed? = some [b])
        every b other
  | b :: c :: rest => exact if_pos (Opcode.isPush_forLength _)

namespace Step

/-- Whether the step writes a token of its own. An opcode that takes data would need bytes of later
steps, and raw bytes need not end where a token does. -/
def StandsAlone : Step → Prop
  | .opcode op => op = .zero ∨ ¬ op.IsPush
  | .raw _ => False
  | .push _ | .int _ => True

instance : (step : Step) → Decidable step.StandsAlone
  | .opcode op => inferInstanceAs (Decidable (op = .zero ∨ ¬ op.IsPush))
  | .raw _ => isFalse id
  | .push _ | .int _ => isTrue trivial

/-- The token says what the step says. Numbers from -1 to 16 have opcodes that stand for them, all
others are pushed directly. Data may be pushed in any way, and a single zero byte is pushed as the
empty string. -/
inductive Shows : Step → Token → Prop where
  | opcode (op : Opcode) : Shows (.opcode op) ⟨op, []⟩
  | constant {n : Int64} {op : Opcode} :
      op.constant? = some n.toInt → Shows (.int n) ⟨op, []⟩
  | number {n : Int64} {data : Bytes} :
      ¬ (-1 ≤ n.toInt ∧ n.toInt ≤ 16) →
      data.length ≤ 75 →
      Number.decode 9 data = .ok n → Shows (.int n) ⟨.data data.length, data⟩
  | zeroByte : Shows (.push [0]) ⟨.zero, []⟩
  | data {data : Bytes} {t : Token} :
      data ≠ [0] → t.pushed? = some data → Shows (.push data) t

theorem shows_ofData (data : Bytes) : Shows (.push data) (Token.ofData data) := by
  by_cases zero : data = [0]
  · subst zero
    exact .zeroByte
  · exact .data zero (Token.pushed?_ofData zero)

theorem shows_ofInt (n : Int64) : Shows (.int n) (Token.ofInt n) := by
  by_cases negative : n = -1
  · subst negative
    exact .constant (by decide)
  by_cases small : 0 ≤ n.toInt ∧ n.toInt ≤ 16
  · obtain ⟨low, high⟩ := small
    rw [Token.ofInt_small low high]
    apply Shows.constant
    rw [Opcode.constant?_ofSmallInt (by omega), Int.toNat_of_nonneg low]
  · have short := Number.length_encode_le n
    have other : n.toInt ≠ -1 := fun same => negative (Int64.toInt_inj.mp same)
    rw [Token.ofInt_direct negative small]
    exact .number (by omega) (by omega) (Number.decode_encode short)

theorem exists_shows {step : Step} {added : Bytes} (alone : step.StandsAlone)
    (encoded : step.encoding = .ok added) : ∃ t, step.Writes t ∧ step.Shows t := by
  cases step with
  | opcode op =>
      have rule : op.lengthRule = .fixed 0 := by
        rcases alone with rfl | noPush
        · rfl
        · exact Opcode.lengthRule_of_not_isPush noPush
      exact ⟨⟨op, []⟩, writes_opcode rule, .opcode op⟩
  | raw bytes => exact absurd alone id
  | push data =>
      have short : data.length ≤ maxElementSize := by
        apply Nat.le_of_not_lt
        intro long
        rw [encoding, if_pos long] at encoded
        cases encoded
      exact ⟨_, writes_push short, shows_ofData data⟩
  | int n => exact ⟨_, writes_int n, shows_ofInt n⟩

end Step

namespace Script

/-- The steps that are not refused when all of them are attempted in turn. -/
def accepted (s : Script) : List Step → List Step
  | [] => []
  | step :: rest =>
      match s.apply step with
      | .ok t => step :: t.accepted rest
      | .error _ => s.accepted rest

variable {s t : Script} {tokens : List Token}

theorem attempt_of_ok {step : Step} (applied : s.apply step = .ok t) : s.attempt step = t := by
  rw [attempt, run_eq_ok_iff.mpr applied]

theorem attempt_of_error {step : Step} {cause : Error} (refused : s.apply step = .error cause) :
    s.attempt step = s := by
  rw [attempt, run_eq_error_iff.mpr refused]

/-- A step that is not refused adds its token to the tokens of the script. -/
theorem tokenize_of_apply {step : Step} (alone : step.StandsAlone)
    (holds : tokenize 0 s.bytes = .ok tokens) (applied : s.apply step = .ok t) :
    ∃ token, step.Shows token ∧ tokenize 0 t.bytes = .ok (tokens ++ [token]) := by
  obtain ⟨added, encoded, -, rfl⟩ := apply_eq_ok_iff.mp applied
  obtain ⟨token, ⟨wellFormed, written⟩, shown⟩ := Step.exists_shows alone encoded
  obtain rfl : added = token.bytes := Except.ok.inj (encoded.symm.trans written)
  exact ⟨token, shown, tokenize_append holds (tokenize_bytes wellFormed)⟩

theorem tokenize_foldl_attempt {steps : List Step} (alone : ∀ step ∈ steps, step.StandsAlone)
    (holds : tokenize 0 s.bytes = .ok tokens) :
    ∃ added, List.Forall₂ Step.Shows (s.accepted steps) added ∧
      tokenize 0 (steps.foldl attempt s).bytes = .ok (tokens ++ added) := by
  induction steps generalizing s tokens with
  | nil => exact ⟨[], .nil, by rwa [List.append_nil]⟩
  | cons step rest ih =>
      have first := alone step List.mem_cons_self
      have later : ∀ other ∈ rest, other.StandsAlone :=
        fun other membership => alone other (List.mem_cons_of_mem step membership)
      rw [List.foldl_cons]
      cases applied : s.apply step with
      | error cause =>
          rw [attempt_of_error applied, accepted, applied]
          exact ih later holds
      | ok t =>
          obtain ⟨token, shown, grown⟩ := tokenize_of_apply first holds applied
          obtain ⟨added, shownLater, whole⟩ := ih later grown
          rw [attempt_of_ok applied, accepted, applied]
          refine ⟨token :: added, .cons shown shownLater, ?_⟩
          rw [whole, List.append_assoc, List.singleton_append]

/-- A script that was empty holds one token for each step that was not refused, which says what the
step says. -/
theorem tokenize_attempts {steps : List Step} (alone : ∀ step ∈ steps, step.StandsAlone) :
    ∃ tokens, tokenize 0 (steps.foldl attempt empty).bytes = .ok tokens ∧
      List.Forall₂ Step.Shows (empty.accepted steps) tokens := by
  have holds : tokenize 0 empty.bytes = .ok [] :=
    tokenize_eq_ok_iff.mpr ⟨List.forall_mem_nil _, rfl⟩
  obtain ⟨added, shown, whole⟩ := tokenize_foldl_attempt alone holds
  exact ⟨added, whole, shown⟩

/-- Data that is too long for a push, and behind it numbers and data on both sides of the lengths
and values at which pushes change their form. -/
def sampleSteps : List Step :=
  [.push (List.replicate 2049 0x07), .int (-129), .push [0], .opcode .checkSig,
   .push (List.replicate 76 0x07), .push [0x10], .int 17, .push [0x81], .int Int64.minValue]

theorem tokenize_attempts_sampleSteps :
    (∀ step ∈ sampleSteps, step.StandsAlone) ∧ empty.accepted sampleSteps = sampleSteps.tail ∧
      ∃ tokens, tokenize 0 (sampleSteps.foldl attempt empty).bytes = .ok tokens ∧
        List.Forall₂ Step.Shows sampleSteps.tail tokens := by
  have alone : ∀ step ∈ sampleSteps, step.StandsAlone := by decide
  have kept : empty.accepted sampleSteps = sampleSteps.tail := by decide +kernel
  have read := tokenize_attempts alone
  rw [kept] at read
  exact ⟨alone, kept, read⟩

end Script

end LockingScript
