import LockingScript.Output.AtomicSwap
import LockingScript.Output.Classification
import LockingScript.Proofs.Token.Cursor
import LockingScript.Proofs.Token.Rendering

/-!
# One notion of malformed scripts

Whatever is asked about a script, the same malformed push is in the way. Where the fault is not
reported, a text of the script ends in the error mark, or the script counts as one that has no
standard form, is no swap contract and is no multisig script.
-/

namespace LockingScript

theorem map_eq_error_iff {α β ε : Type} {f : α → β} {result : Except ε α} {cause : ε} :
    result.map f = .error cause ↔ result = .error cause := by
  cases result <;> simp [Except.map]

variable {version : UInt16} {script : Bytes} {fault : MalformedPush}

theorem checkParses_eq_error_iff :
    checkParses version script = .error fault ↔ tokenize version script = .error fault := by
  rw [checkParses_eq, map_eq_error_iff]

theorem payees_eq_error_iff {policy : Policy} :
    payees version script policy = .error fault ↔ tokenize version script = .error fault :=
  map_eq_error_iff

theorem exists_tokenize_eq_error_iff :
    (∃ fault, tokenize version script = .error fault) ↔
      ∃ fault, (Reading.ofScript version script).fault = some fault := by
  simp only [tokenize_eq_error_iff]

theorem errorMark_suffix_shortForm_iff_malformed (style : PushStyle) :
    Reading.errorMark.toList <:+ ((Reading.ofScript version script).shortForm style).toList ↔
      ∃ fault, tokenize version script = .error fault := by
  rw [exists_tokenize_eq_error_iff]
  apply Reading.errorMark_suffix_shortForm_iff
  intro t membership
  exact Reading.wellFormed_of_mem_ofScript membership

theorem errorMark_suffix_oneLine_iff_malformed :
    Reading.errorMark.toList <:+ (Reading.ofBytes script).oneLine.toList ↔
      ∃ fault, tokenize 0 script = .error fault := by
  rw [exists_tokenize_eq_error_iff]
  exact Reading.errorMark_suffix_oneLine_iff

/-- Only scripts of the version that is understood are read, so only they can be malformed. -/
theorem tokenize_of_unsupported (other : version ≠ 0) : tokenize version script = .ok [] := by
  have nothing : Reading.ofScript version script = Reading.empty := if_neg other
  rw [tokenize, nothing]
  rfl

theorem version_of_malformed (malformed : tokenize version script = .error fault) :
    version = 0 := by
  by_contra other
  rw [tokenize_of_unsupported other] at malformed
  cases malformed

theorem classify_of_malformed (malformed : tokenize version script = .error fault)
    (policy : Policy) : classify version script policy = ⟨.nonStandard, none⟩ := by
  rw [classify, malformed]

theorem exists_tokenize_of_standard {policy : Policy}
    (standard : (classify version script policy).outputClass ≠ .nonStandard) :
    ∃ tokens, tokenize version script = .ok tokens := by
  cases tokenized : tokenize version script with
  | ok tokens => exact ⟨tokens, rfl⟩
  | error fault =>
      rw [classify_of_malformed tokenized] at standard
      exact absurd rfl standard

theorem AtomicSwap.ofScript_of_malformed (malformed : tokenize 0 script = .error fault) :
    ofScript 0 script = .ok none := by
  have supported : ¬ (0 : UInt16) ≠ Reading.supportedVersion := by decide
  rw [ofScript, if_neg supported, malformed]
  rfl

theorem MultiSig.ofScript_of_malformed (malformed : tokenize 0 script = .error fault) :
    ofScript script = .error .notMultiSig := by
  rw [ofScript, show Reading.supportedVersion = 0 from rfl, malformed]

/-- All that read a script meet the same fault, or none of them meets one. Those that have no way
of reporting it say so by the error mark at the end of their text, or take the script for none of
theirs. -/
theorem malformed_agreement (version : UInt16) (script : Bytes) (policy : Policy)
    (style : PushStyle) :
    (∀ fault, checkParses version script = .error fault ↔
        tokenize version script = .error fault) ∧
      (∀ fault, payees version script policy = .error fault ↔
        tokenize version script = .error fault) ∧
      ("[error]".toList <:+ ((Reading.ofScript version script).shortForm style).toList ↔
        ∃ fault, tokenize version script = .error fault) ∧
      ("[error]".toList <:+ (Reading.ofBytes script).oneLine.toList ↔
        ∃ fault, tokenize 0 script = .error fault) ∧
      (∀ fault, tokenize version script = .error fault →
        classify version script policy = ⟨.nonStandard, none⟩ ∧
          AtomicSwap.ofScript 0 script = .ok none ∧
          MultiSig.ofScript script = .error .notMultiSig) ∧
      (version ≠ 0 → ∀ fault, tokenize version script ≠ .error fault) := by
  refine ⟨fun _ => checkParses_eq_error_iff, fun _ => payees_eq_error_iff,
    errorMark_suffix_shortForm_iff_malformed style, errorMark_suffix_oneLine_iff_malformed, ?_, ?_⟩
  · intro fault malformed
    have supported := version_of_malformed malformed
    subst supported
    exact ⟨classify_of_malformed malformed policy, AtomicSwap.ofScript_of_malformed malformed,
      MultiSig.ofScript_of_malformed malformed⟩
  · intro other fault malformed
    exact other (version_of_malformed malformed)

/-- A script that breaks off in the second of two bytes of a push. -/
def brokenOff : Bytes := [0x76, 0xa9, 0x02, 0x5d]

theorem malformed_agreement_brokenOff :
    tokenize 0 brokenOff = .error ⟨.data 2, .direct, 2, 1⟩ ∧
      checkParses 0 brokenOff = .error ⟨.data 2, .direct, 2, 1⟩ ∧
      payees 0 brokenOff .withTreasury = .error ⟨.data 2, .direct, 2, 1⟩ ∧
      "[error]".toList <:+ ((Reading.ofScript 0 brokenOff).shortForm .compressed).toList ∧
      "[error]".toList <:+ (Reading.ofBytes brokenOff).oneLine.toList ∧
      classify 0 brokenOff .withTreasury = ⟨.nonStandard, none⟩ ∧
      (1 : UInt16) ≠ 0 ∧ ∀ fault, tokenize 1 brokenOff ≠ .error fault := by
  have malformed : tokenize 0 brokenOff = .error ⟨.data 2, .direct, 2, 1⟩ := by decide +kernel
  have other : (1 : UInt16) ≠ 0 := by decide
  obtain ⟨checked, paid, words, line, downgraded, -⟩ :=
    malformed_agreement 0 brokenOff .withTreasury .compressed
  obtain ⟨-, -, -, -, -, unread⟩ := malformed_agreement 1 brokenOff .withTreasury .compressed
  exact ⟨malformed, (checked _).mpr malformed, (paid _).mpr malformed, words.mpr ⟨_, malformed⟩,
    line.mpr ⟨_, malformed⟩, (downgraded _ malformed).1, other, unread other⟩

end LockingScript
